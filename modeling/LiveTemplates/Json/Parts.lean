import LiveTemplates.Json.Basic

/-!
# Parts of JSON values

Tests on the scalars of a value, among them the names of its members, and values without some of
their members.
-/

namespace LiveTemplates

namespace Json

mutual

def anyScalar (p : Scalar → Bool) : Json → Bool
  | .scalar s => p s
  | .array items => anyScalarItems p items
  | .object members => anyScalarMembers p members

def anyScalarItems (p : Scalar → Bool) : List Json → Bool
  | [] => false
  | item :: rest => anyScalar p item || anyScalarItems p rest

/-- The names of members count as texts. -/
def anyScalarMembers (p : Scalar → Bool) : List (Text × Json) → Bool
  | [] => false
  | (name, value) :: rest => p (.text name) || anyScalar p value || anyScalarMembers p rest

end

mutual

/-- The value without the members, at any depth, whose names pass a test. -/
def withoutNames (p : Text → Bool) : Json → Json
  | .scalar s => .scalar s
  | .array items => .array (itemsWithoutNames p items)
  | .object members => .object (membersWithoutNames p members)

def itemsWithoutNames (p : Text → Bool) : List Json → List Json
  | [] => []
  | item :: rest => withoutNames p item :: itemsWithoutNames p rest

def membersWithoutNames (p : Text → Bool) : List (Text × Json) → List (Text × Json)
  | [] => []
  | (name, value) :: rest =>
    if p name then membersWithoutNames p rest
    else (name, withoutNames p value) :: membersWithoutNames p rest

end

end Json

namespace Scalar

def isInfinite : Scalar → Bool
  | .number n => n.isInfinite
  | _ => false

def hasLone : Scalar → Bool
  | .text t => t.any CodePoint.isLone
  | _ => false

end Scalar

end LiveTemplates
