import LiveTemplates.Json.Lexeme

/-!
# Reading JSON

A reader goes over the lexemes of a document once, holding the containers that have begun and not
ended. It stops at the first lexeme that cannot come next. Containers nest at most
`nestingLimit` deep.
-/

namespace LiveTemplates

namespace Json

inductive Container where
  | array
  | object
deriving DecidableEq

inductive Stop where
  | flaw (flaw : Flaw)
  | constant (c : Constant)
  | longInteger (digits : Nat)
  | tooDeep (container : Container)
deriving DecidableEq

abbrev Members := List (Text × Json)

/-- A container that has begun, up to the value that is being read; what came before is held in
reverse. -/
inductive Frame where
  | item (before : List Json)
  | member (before : Members) (name : Text)

/-- What a reader has read, innermost container first. -/
inductive Reader where
  /-- A value has to come. -/
  | nextValue (outer : List Frame)
  /-- An array has just begun. -/
  | firstItem (outer : List Frame)
  /-- An object goes on with a name, or ends here if it has just begun. -/
  | nextName (before : Members) (mayEnd : Bool) (outer : List Frame)
  | nextColon (before : Members) (name : Text) (outer : List Frame)
  /-- A value has just ended. -/
  | ended (v : Json) (outer : List Frame)

/-- How many calls the interpreter nests. Those of the callers of the reader count as well, which
are left out here. -/
def nestingLimit : Nat := 1000

namespace Reader

def start : Reader := .nextValue []

def fail (fault : Fault) (left : Nat) : Except Stop Reader := .error (.flaw ⟨fault, left⟩)

/-- Begins a value inside of the containers `outer`. -/
def beginValue (outer : List Frame) (l : Lexeme) : Except Stop Reader :=
  match l.token with
  | .atom s => .ok (.ended (.scalar s) outer)
  | .text t => .ok (.ended (.text t) outer)
  | .openArray =>
    if outer.length < nestingLimit then .ok (.firstItem outer) else .error (.tooDeep .array)
  | .openObject =>
    if outer.length < nestingLimit then .ok (.nextName [] true outer) else .error (.tooDeep .object)
  | .constant c => .error (.constant c)
  | .longInteger digits => .error (.longInteger digits)
  | .flawed flaw => .error (.flaw flaw)
  | _ => fail .valueExpected l.left

def advance (r : Reader) (l : Lexeme) : Except Stop Reader :=
  match r with
  | .nextValue outer => beginValue outer l
  | .firstItem outer =>
    if l.token = .closeArray then .ok (.ended (.array []) outer)
    else beginValue (.item [] :: outer) l
  | .nextName before mayEnd outer =>
    match l.token with
    | .text t => .ok (.nextColon before t outer)
    | .flawed flaw => .error (.flaw flaw)
    | .closeObject =>
      if mayEnd then .ok (.ended (.object before.reverse) outer)
      else fail .nameExpected l.left
    | _ => fail .nameExpected l.left
  | .nextColon before name outer =>
    if l.token = .colon then .ok (.nextValue (.member before name :: outer))
    else fail .colonExpected l.left
  | .ended _ [] => fail .extraData l.left
  | .ended v (.item before :: outer) =>
    match l.token with
    | .comma => .ok (.nextValue (.item (v :: before) :: outer))
    | .closeArray => .ok (.ended (.array (v :: before).reverse) outer)
    | _ => fail .commaExpected l.left
  | .ended v (.member before name :: outer) =>
    match l.token with
    | .comma => .ok (.nextName ((name, v) :: before) false outer)
    | .closeObject => .ok (.ended (.object ((name, v) :: before).reverse) outer)
    | _ => fail .commaExpected l.left

def finish : Reader → Except Stop Json
  | .ended v [] => .ok v
  | .ended _ (_ :: _) => .error (.flaw ⟨.commaExpected, 0⟩)
  | .nextValue _ => .error (.flaw ⟨.valueExpected, 0⟩)
  | .firstItem _ => .error (.flaw ⟨.valueExpected, 0⟩)
  | .nextName .. => .error (.flaw ⟨.nameExpected, 0⟩)
  | .nextColon .. => .error (.flaw ⟨.colonExpected, 0⟩)

def run (r : Reader) (ls : List Lexeme) : Except Stop Json :=
  match ls with
  | [] => r.finish
  | l :: rest =>
    match r.advance l with
    | .error stop => .error stop
    | .ok r' => r'.run rest

end Reader

def byteOrderMark : Char := '\ufeff'

/-- The value of a document as it is written, with repeated names. -/
def ofDocument (document : List Char) : Except Stop Json :=
  if document.head? = some byteOrderMark then .error (.flaw ⟨.byteOrderMark, document.length⟩)
  else Reader.start.run (lexemes document)

end Json

end LiveTemplates
