import LiveTemplates.Number.Basic
import LiveTemplates.Text.Quoted

/-!
# Change markers

A resource answers a marker that grows when its contents change. Markers of different kinds may
turn out not to be comparable.
-/

namespace LiveTemplates

class Marking (M : Type) where
  /-- Whether the first marker is older than the second, if the two can be compared. -/
  older? : M → M → Option Bool
  kind : M → Text
  text : M → Text

instance : Marking Int where
  older? a b := some (decide (a < b))
  kind _ := "int"
  text := Text.ofInt

@[simp] theorem Marking.older?_int (m n : Int) : Marking.older? m n = some (decide (m < n)) := rfl

/-- A marker that may be a number, a text, or missing. -/
inductive Marker where
  | number (n : Number)
  | text (t : Text)
  | absent
deriving DecidableEq

namespace Marker

def older? : Marker → Marker → Option Bool
  | .number m, .number n => some (m.less n)
  | .text s, .text t => some (s.precedes t)
  | _, _ => none

def kind : Marker → Text
  | .number (.int _) => "int"
  | .number (.float _) => "float"
  | .text _ => "str"
  | .absent => "NoneType"

def shown : Marker → Text
  | .number n => n.text
  | .text t => t.quoted
  | .absent => "None"

end Marker

instance : Marking Marker := ⟨Marker.older?, Marker.kind, Marker.shown⟩

end LiveTemplates
