import LiveTemplates.Keyed
import LiveTemplates.Number.Basic

/-!
# JSON values

A value is a scalar, an array, or an object with its members in the order of the document. In a
value as it is read, an object may repeat a name; `Json.distinct` keeps, at every depth, each name
once, at the place of its first member and with the value of its last.
-/

namespace LiveTemplates

inductive Scalar where
  | null
  | bool (b : Bool)
  | number (n : Number)
  | text (t : Text)
deriving DecidableEq, Inhabited

inductive Json where
  | scalar (s : Scalar)
  | array (items : List Json)
  | object (members : List (Text × Json))
deriving Inhabited

namespace Json

abbrev null : Json := .scalar .null
abbrev bool (b : Bool) : Json := .scalar (.bool b)
abbrev int (i : Int) : Json := .scalar (.number (.int i))
abbrev text (t : Text) : Json := .scalar (.text t)

/-- Each name once, with its last value at its first place. -/
def lastOfEach (members : Keyed Text Json) : Keyed Text Json :=
  members.foldl (fun kept (name, value) => kept.put name value) []

theorem nodup_keys_lastOfEach (members : Keyed Text Json) :
    (lastOfEach members).keys.Nodup := by
  have hfold : ∀ (ms kept : Keyed Text Json), kept.keys.Nodup →
      (ms.foldl (fun kept (name, value) => kept.put name value) kept).keys.Nodup := by
    intro ms
    induction ms with
    | nil => exact fun _ h => h
    | cons m ms ih => exact fun kept h => ih _ (Keyed.nodup_keys_put h m.1 m.2)
  exact hfold members [] List.nodup_nil

mutual

def distinct : Json → Json
  | .scalar s => .scalar s
  | .array items => .array (distinctItems items)
  | .object members => .object (lastOfEach (distinctMembers members))

def distinctItems : List Json → List Json
  | [] => []
  | item :: rest => distinct item :: distinctItems rest

def distinctMembers : List (Text × Json) → List (Text × Json)
  | [] => []
  | (name, value) :: rest => (name, distinct value) :: distinctMembers rest

end

mutual

/-- The number of containers in each other. -/
def depth : Json → Nat
  | .scalar _ => 0
  | .array items => itemsDepth items + 1
  | .object members => membersDepth members + 1

def itemsDepth : List Json → Nat
  | [] => 0
  | item :: rest => max (depth item) (itemsDepth rest)

def membersDepth : List (Text × Json) → Nat
  | [] => 0
  | (_, value) :: rest => max (depth value) (membersDepth rest)

end

def member? (name : Text) : Json → Option Json
  | .object members => Keyed.find? members name
  | _ => none

end Json

end LiveTemplates
