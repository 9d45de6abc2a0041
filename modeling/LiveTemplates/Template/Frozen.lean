import LiveTemplates.Json.Basic

/-!
# Frozen values

A template keeps a part of its document as it was read and shares it with everybody who is served.
There, arrays are tuples and objects are read-only mappings, at every depth, so that nobody changes
what others see. Thawing gives back the value that was frozen.
-/

namespace LiveTemplates

inductive Frozen where
  | scalar (s : Scalar)
  | tuple (items : List Frozen)
  | mapping (members : List (Text × Frozen))
deriving Inhabited

abbrev Frozen.null : Frozen := .scalar .null

namespace Json

mutual

def freeze : Json → Frozen
  | .scalar s => .scalar s
  | .array items => .tuple (freezeItems items)
  | .object members => .mapping (freezeMembers members)

def freezeItems : List Json → List Frozen
  | [] => []
  | item :: rest => freeze item :: freezeItems rest

def freezeMembers : List (Text × Json) → List (Text × Frozen)
  | [] => []
  | (name, value) :: rest => (name, freeze value) :: freezeMembers rest

end

end Json

namespace Frozen

mutual

def thaw : Frozen → Json
  | .scalar s => .scalar s
  | .tuple items => .array (thawItems items)
  | .mapping members => .object (thawMembers members)

def thawItems : List Frozen → List Json
  | [] => []
  | item :: rest => thaw item :: thawItems rest

def thawMembers : List (Text × Frozen) → List (Text × Json)
  | [] => []
  | (name, value) :: rest => (name, thaw value) :: thawMembers rest

end

mutual

@[simp] theorem thaw_freeze : (v : Json) → v.freeze.thaw = v
  | .scalar _ => rfl
  | .array items => by rw [Json.freeze, thaw, thawItems_freezeItems items]
  | .object members => by rw [Json.freeze, thaw, thawMembers_freezeMembers members]

theorem thawItems_freezeItems : (items : List Json) → thawItems (Json.freezeItems items) = items
  | [] => rfl
  | item :: rest => by
    rw [Json.freezeItems, thawItems, thaw_freeze item, thawItems_freezeItems rest]

theorem thawMembers_freezeMembers :
    (members : List (Text × Json)) → thawMembers (Json.freezeMembers members) = members
  | [] => rfl
  | (name, value) :: rest => by
    rw [Json.freezeMembers, thawMembers, thaw_freeze value, thawMembers_freezeMembers rest]

end

mutual

@[simp] theorem freeze_thaw : (f : Frozen) → f.thaw.freeze = f
  | .scalar _ => rfl
  | .tuple items => by rw [thaw, Json.freeze, freezeItems_thawItems items]
  | .mapping members => by rw [thaw, Json.freeze, freezeMembers_thawMembers members]

theorem freezeItems_thawItems : (items : List Frozen) → Json.freezeItems (thawItems items) = items
  | [] => rfl
  | item :: rest => by
    rw [thawItems, Json.freezeItems, freeze_thaw item, freezeItems_thawItems rest]

theorem freezeMembers_thawMembers :
    (members : List (Text × Frozen)) → Json.freezeMembers (thawMembers members) = members
  | [] => rfl
  | (name, value) :: rest => by
    rw [thawMembers, Json.freezeMembers, freeze_thaw value, freezeMembers_thawMembers rest]

end

end Frozen

end LiveTemplates
