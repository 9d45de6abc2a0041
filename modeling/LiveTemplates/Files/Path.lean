import LiveTemplates.Text.Basic

/-!
# Paths

A path is relative or absolute and has the names between its slashes, without the empty ones and
without `.`. The name `..` is kept. Exactly two slashes at the start are kept apart from one.
-/

namespace LiveTemplates

inductive Anchor where
  | relative
  | absolute
  | doubled
deriving DecidableEq

structure Path where
  anchor : Anchor
  names : List Text
deriving DecidableEq

namespace Path

def slash : CodePoint := .char '/'

def here : Text := Text.ofString "."

def parent : Text := Text.ofString ".."

/-- The pieces between slashes, among them empty ones. -/
def pieces : Text → List Text
  | [] => [[]]
  | p :: rest =>
    if p = slash then [] :: pieces rest
    else
      match pieces rest with
      | [] => [[p]]
      | piece :: more => (p :: piece) :: more

def anchorOf (t : Text) : Anchor :=
  match (t.takeWhile (· = slash)).length with
  | 0 => .relative
  | 2 => .doubled
  | _ => .absolute

def parse (t : Text) : Path :=
  ⟨anchorOf t, (pieces t).filter fun piece => piece ≠ [] ∧ piece ≠ here⟩

def Anchor.text : Anchor → Text
  | .relative => []
  | .absolute => [slash]
  | .doubled => [slash, slash]

def text (p : Path) : Text :=
  match p.anchor, p.names with
  | .relative, [] => here
  | anchor, names => Anchor.text anchor ++ Text.intercalate [slash] names

def child (p : Path) (name : Text) : Path := { p with names := p.names ++ [name] }

def isAbsolute (p : Path) : Bool := p.anchor ≠ .relative

/-- Where a path leads that goes on from another one, unless it is absolute. -/
def join (p q : Path) : Path :=
  if q.isAbsolute then q else { p with names := p.names ++ q.names }

example : (parse "./a//b/../").text = "a/b/.." := by decide +kernel
example : (parse "///x").text = "/x" := by decide +kernel
example : (parse "//x").text = "//x" := by decide +kernel
example : (parse "").text = "." := by decide +kernel
example : (join (parse "/app") (parse "tpl")).text = "/app/tpl" := by decide +kernel

end Path

end LiveTemplates
