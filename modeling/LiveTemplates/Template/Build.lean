import LiveTemplates.Template.Node
import LiveTemplates.Template.Rejection
import LiveTemplates.Text.Blank

/-!
# Building template trees

A tree is built from a JSON object in which no name repeats. The members named `$source`, and at
the root also `@context`, give fields of their node; every other member gives one child. A text
is dynamic if it opens an expression by `${` or `$${`. Violations are reported in document order,
except that the source of an object comes before all its other members.
-/

namespace LiveTemplates

def sourceName : Text := Text.ofString "$source"

def contextName : Text := Text.ofString "@context"

/-- The role that a text opens, and what follows the opener. -/
def Role.opened? : Text → Option (Role × Text)
  | .char '$' :: .char '$' :: .char '\x7b' :: rest => some (.filter, rest)
  | .char '$' :: .char '\x7b' :: rest => some (.property, rest)
  | _ => none

namespace Node

def ofText (key : Option Text) (value : Text) : Except Rejection Node :=
  match Role.opened? value with
  | none => .ok (.static key (.text value))
  | some (role, rest) =>
    if rest.getLast? = some (.char '\x7d') then
      let expression := Text.trim rest.dropLast
      if expression = [] then .error (.emptyExpression key)
      else if .char '\x7d' ∈ expression then .error (.strayBrace value key)
      else .ok (.dynamic key role expression)
    else .error (.unterminatedExpression value key)

/-- The source that an object names, if it names one. -/
def sourceOf (members : Keyed Text Json) : Except Rejection (Option Text) :=
  match members.find? sourceName with
  | none => .ok none
  | some (.scalar (.text source)) =>
    if source.isBlank then .error .blankSource else .ok (some source)
  | some _ => .error .blankSource

mutual

def ofJson (key : Option Text) : Json → Except Rejection Node
  | .scalar (.text t) => ofText key t
  | .scalar s => .ok (.static key s)
  | .array items =>
    match ofItems items with
    | .error r => .error r
    | .ok children => .ok (.iterating key children)
  | .object members =>
    match sourceOf members with
    | .error r => .error r
    | .ok source =>
      match ofMembers [sourceName] members with
      | .error r => .error r
      | .ok children => .ok (.composite key source children)

def ofItems : List Json → Except Rejection (List Node)
  | [] => .ok []
  | item :: rest =>
    match ofJson none item with
    | .error r => .error r
    | .ok node =>
      match ofItems rest with
      | .error r => .error r
      | .ok nodes => .ok (node :: nodes)

/-- One child for each member, apart from the `special` ones. -/
def ofMembers (special : List Text) : List (Text × Json) → Except Rejection (List Node)
  | [] => .ok []
  | (name, value) :: rest =>
    if name ∈ special then ofMembers special rest
    else
      match ofJson (some name) value with
      | .error r => .error r
      | .ok node =>
        match ofMembers special rest with
        | .error r => .error r
        | .ok nodes => .ok (node :: nodes)

end

end Node

def Root.ofJson : Json → Except Rejection Root
  | .object members =>
    match Node.sourceOf members with
    | .error r => .error r
    | .ok source =>
      match Node.ofMembers [contextName, sourceName] members with
      | .error r => .error r
      | .ok children =>
        .ok ⟨((Keyed.find? members contextName).getD .null).freeze, source, children⟩
  | _ => .error .rootNotObject

end LiveTemplates
