import LiveTemplates.Watch.Source

/-!
# Resources in memory

A resource in memory counts its revisions: every write and every deletion makes a new one, and
the revision is the marker. A stream holds the contents at the time of its opening.
-/

namespace LiveTemplates

structure Memory where
  key : Text
  contents : Option Bytes := none
  revision : Int := 0

namespace Memory

/-- Replaces the contents; writing nothing leaves the resource without contents. -/
def write (m : Memory) (contents : Option Bytes) : Memory :=
  { m with contents, revision := m.revision + 1 }

def delete (m : Memory) : Memory := m.write none

def absentReason : Text := "no such resource"

inductive Change where
  | write (contents : Option Bytes)
  | delete

def change : Change → Memory → Memory
  | .write contents, m => m.write contents
  | .delete, m => m.delete

def source : Source Memory Int Bytes where
  identity := key
  marker m :=
    match m.contents with
    | none => (.error absentReason, m)
    | some _ => (.ok m.revision, m)
  openStream m :=
    match m.contents with
    | none => .error absentReason
    | some contents => .ok contents
  read stream _ := .ok stream

end Memory

end LiveTemplates
