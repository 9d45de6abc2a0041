import LiveTemplates.Template.Frozen

/-!
# Template trees

A template is a tree of nodes below one root. A node is static, dynamic with an expression that
is evaluated later, composite if it came from an object, or iterating if it came from an array.
Children keep the order of the document; `outline` renders a tree as a JSON value.
-/

namespace LiveTemplates

/-- What a dynamic value does with its expression: it looks up a property or applies a filter. -/
inductive Role where
  | property
  | filter
deriving DecidableEq

def Role.label : Role → String
  | .property => "property"
  | .filter => "filter"

inductive Node where
  | static (key : Option Text) (value : Scalar)
  | dynamic (key : Option Text) (role : Role) (expression : Text)
  | composite (key : Option Text) (source : Option Text) (children : List Node)
  | iterating (key : Option Text) (children : List Node)
deriving Inhabited

structure Root where
  context : Frozen
  source : Option Text
  children : List Node
deriving Inhabited

namespace Node

def key : Node → Option Text
  | .static key _ => key
  | .dynamic key _ _ => key
  | .composite key _ _ => key
  | .iterating key _ => key

def optionalText : Option Text → Json
  | none => .null
  | some t => .text t

def field (name : String) (value : Json) : Text × Json := (Text.ofString name, value)

def kind (name : String) : Text × Json := field "type" (.text name)

mutual

def outline : Node → Json
  | .static key value =>
    .object [kind "static", field "key" (optionalText key), field "value" (.scalar value)]
  | .dynamic key role expression =>
    .object [kind role.label, field "key" (optionalText key),
      field "expression" (.text expression)]
  | .composite key source children =>
    .object [kind "composite", field "key" (optionalText key),
      field "source" (optionalText source), field "children" (.array (outlines children))]
  | .iterating key children =>
    .object [kind "iterating", field "key" (optionalText key),
      field "children" (.array (outlines children))]

def outlines : List Node → List Json
  | [] => []
  | node :: rest => outline node :: outlines rest

end

end Node

def Root.outline (r : Root) : Json :=
  .object [Node.kind "root", Node.field "context" r.context.thaw,
    Node.field "source" (Node.optionalText r.source),
    Node.field "children" (.array (Node.outlines r.children))]

end LiveTemplates
