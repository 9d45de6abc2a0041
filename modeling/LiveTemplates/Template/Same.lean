import LiveTemplates.Template.Node

/-!
# Equality of templates

Two templates are the same if their nodes are, one by one. Numbers are compared by exact value,
truth values count as the numbers zero and one, and the members of an object in the context have
no order.
-/

namespace LiveTemplates

namespace Scalar

/-- The number that a truth value or a number stands for. -/
def number? : Scalar → Option Number
  | .bool b => some (.int (if b then 1 else 0))
  | .number n => some n
  | _ => none

def same (a b : Scalar) : Bool :=
  match a, b with
  | .null, .null => true
  | .text s, .text t => s == t
  | a, b =>
    match a.number?, b.number? with
    | some m, some n => m.same n
    | _, _ => false

end Scalar

namespace Json

mutual

/-- Compares values in which no name repeats. -/
def same : Json → Json → Bool
  | .scalar a, .scalar b => a.same b
  | .array items, .array others => sameItems items others
  | .object members, .object others =>
    members.length == others.length && sameMembers members others
  | _, _ => false

def sameItems : List Json → List Json → Bool
  | [], [] => true
  | a :: items, b :: others => same a b && sameItems items others
  | _, _ => false

/-- Every member has a namesake with the same value. -/
def sameMembers : List (Text × Json) → List (Text × Json) → Bool
  | [], _ => true
  | (name, value) :: rest, others =>
    (match Keyed.find? others name with
      | some other => same value other
      | none => false) && sameMembers rest others

end

end Json

namespace Node

mutual

def same : Node → Node → Bool
  | .static key value, .static key' value' => key == key' && value.same value'
  | .dynamic key role expression, .dynamic key' role' expression' =>
    key == key' && role == role' && expression == expression'
  | .composite key source children, .composite key' source' children' =>
    key == key' && source == source' && sameAll children children'
  | .iterating key children, .iterating key' children' =>
    key == key' && sameAll children children'
  | _, _ => false

def sameAll : List Node → List Node → Bool
  | [], [] => true
  | a :: rest, b :: others => same a b && sameAll rest others
  | _, _ => false

end

end Node

def Root.same (a b : Root) : Bool :=
  a.context.thaw.same b.context.thaw && a.source == b.source && Node.sameAll a.children b.children

end LiveTemplates
