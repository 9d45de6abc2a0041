import LiveTemplates.Watch.Run

/-!
# Scripted resources

A scripted resource answers what a script lays down, and stands for any resource whatever. Its
cues are the outcomes of marker reads, one after the other; the last one stays. A cue may have
another caller request the artifact, and be served, before the marker is answered.
-/

namespace LiveTemplates

inductive Cue (M : Type) where
  | answer (m : M)
  | unavailable (reason : Text)
  | afterOther (m : M)

structure Script (M : Type) where
  key : Text
  cue : Cue M
  later : List (Cue M)
  contents : Bytes
  openFault : Option Text := none
  readFault : Option Text := none

namespace Script

variable {A M F : Type}

/-- The next cue; the last one is not used up. -/
def take (s : Script M) : Cue M × Script M :=
  match s.later with
  | [] => (s.cue, s)
  | next :: later => (s.cue, { s with cue := next, later })

/-- New values for some of the fields of a script. -/
structure Change (M : Type) where
  cues : Option (Cue M × List (Cue M)) := none
  contents : Option Bytes := none
  openFault : Option (Option Text) := none
  readFault : Option (Option Text) := none

def change (c : Change M) (s : Script M) : Script M where
  key := s.key
  cue := (c.cues.map Prod.fst).getD s.cue
  later := (c.cues.map Prod.snd).getD s.later
  contents := c.contents.getD s.contents
  openFault := c.openFault.getD s.openFault
  readFault := c.readFault.getD s.readFault

/-- A stream delivers the contents at the time of its opening, or the fault that reading had
then. -/
structure Stream where
  contents : Bytes
  fault : Option Text

def openStream (w : Watch (Script M) A M F) :
    Except (LoadFailure M F) Stream × Watch (Script M) A M F :=
  match w.resource.openFault with
  | some reason => (.error (.unavailable ⟨w.resource.key, reason⟩), w)
  | none => (.ok ⟨w.resource.contents, w.resource.readFault⟩, w)

def readStream (stream : Stream) (_ : Watch (Script M) A M F) : Except (LoadFailure M F) Bytes :=
  match stream.fault with
  | some reason => .error (.unreadable reason)
  | none => .ok stream.contents

variable [Marking M]

/-- Reads the marker, where requests of other callers nest less than `depth` deep. At greater
depth no caller would ever be served. -/
def marker (compilation : Compilation (Script M) A M F Stream) (depth : Nat)
    (w : Watch (Script M) A M F) :
    Except (LoadFailure M F) M × Watch (Script M) A M F :=
  match depth with
  | 0 => (.error .deadlock, w)
  | depth + 1 =>
    let (cue, script) := w.resource.take
    let w := { w with resource := script }
    match cue with
    | .answer m => (.ok m, w)
    | .unavailable reason => (.error (.unavailable ⟨script.key, reason⟩), w)
    | .afterOther m =>
      let (outcome, w) := serve ⟨marker compilation depth, openStream, readStream⟩ compilation w
      (.ok m, w.note (.otherServed (outcome.map (·.serial))))

/-- Every nested request uses up a cue unless a single one is left, so this depth is reached only
by a script whose last cue waits for another caller. -/
def depth (s : Script M) : Nat := s.later.length + 2

def access (compilation : Compilation (Script M) A M F Stream) :
    Access (Script M) A M F Stream where
  marker w := marker compilation w.resource.depth w
  openStream := openStream
  read := readStream

/-- Scripted resources with a compiler of what their streams deliver. -/
def bench {E : Type} (change : E → Script M → Script M) (compile : Compiler A F) :
    Bench (Script M) A M F Stream E :=
  ⟨access (compile.reading readStream), key, change, compile.reading readStream⟩

end Script

end LiveTemplates
