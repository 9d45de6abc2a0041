import LiveTemplates.Template.Build

/-!
# The stack that building takes

A tree is built by functions that call each other once more for a container inside of another one,
and a context is frozen by such functions before the tree is built. Where containers nest deeper
than the stack has room for, the interpreter gives up, unless it has come upon a violation before.
-/

namespace LiveTemplates

namespace Node

mutual

/-- Whether building the node of a value runs out of room before it comes upon a violation. -/
def exhausts : Nat → Json → Bool
  | _, .scalar _ => false
  | 0, _ => true
  | room + 1, .array items => exhaustsItems room items
  | room + 1, .object members =>
    (sourceOf members).isOk && exhaustsMembers [sourceName] room members

def exhaustsItems : Nat → List Json → Bool
  | _, [] => false
  | room, item :: rest =>
    exhausts room item || ((ofJson none item).isOk && exhaustsItems room rest)

def exhaustsMembers (special : List Text) : Nat → List (Text × Json) → Bool
  | _, [] => false
  | room, (name, value) :: rest =>
    if name ∈ special then exhaustsMembers special room rest
    else
      exhausts room value ||
        ((ofJson (some name) value).isOk && exhaustsMembers special room rest)

end

end Node

/-- Whether there is room for so many containers in each other only, inside of the object that is
the root, and building the tree takes more. -/
def Root.exhausts (room : Nat) : Json → Bool
  | .object members =>
    room < ((Keyed.find? members contextName).getD .null).depth ||
      ((Node.sourceOf members).isOk &&
        Node.exhaustsMembers [contextName, sourceName] room members)
  | _ => false

end LiveTemplates
