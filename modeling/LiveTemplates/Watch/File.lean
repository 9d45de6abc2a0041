import LiveTemplates.Files.FileSystem
import LiveTemplates.Sha1
import LiveTemplates.Watch.Source

/-!
# Files as resources

A file is watched by its modification time, or by the generation of its contents. The generation
counts how often the digest of the contents, as they were seen, has changed; it does not depend on
timestamps.
-/

namespace LiveTemplates

/-- What marks the changes of a file. -/
inductive Strategy where
  | modified
  | digest
deriving DecidableEq

def Strategy.name : Strategy → Text
  | .modified => Text.ofString "mtime"
  | .digest => Text.ofString "digest"

def Strategy.ofName? (name : Text) : Option Strategy :=
  [Strategy.modified, .digest].find? (·.name = name)

theorem Strategy.ofName?_name (s : Strategy) : ofName? s.name = some s := by
  cases s <;> decide

/-- The digest seen last and the number of changes seen so far. -/
structure Generation where
  count : Nat := 0
  last : Option Sha1.Digest := none
deriving DecidableEq

/-- The generation after contents were seen. -/
def Generation.see (g : Generation) (contents : Bytes) : Generation :=
  let digest := Sha1.digest contents
  if g.last = some digest then g else ⟨g.count + 1, some digest⟩

inductive FileMark where
  | modified
  | generation (g : Generation)

structure TrackedFile where
  path : Path
  mark : FileMark

def TrackedFile.watching (path : Path) : Strategy → TrackedFile
  | .modified => ⟨path, .modified⟩
  | .digest => ⟨path, .generation {}⟩

/-- A file resource together with the file system that it looks at. -/
structure WatchedFile where
  file : TrackedFile
  files : FileSystem

namespace WatchedFile

def marker (w : WatchedFile) : Except Text Int × WatchedFile :=
  match w.file.mark with
  | .modified =>
    match w.files.modified w.file.path with
    | .error refusal => (.error refusal.reason, w)
    | .ok modified => (.ok modified, w)
  | .generation g =>
    match w.files.contents w.file.path with
    | .error refusal => (.error refusal.reason, w)
    | .ok contents =>
      let g := g.see contents
      (.ok g.count, { w with file := ⟨w.file.path, .generation g⟩ })

def openStream (w : WatchedFile) : Except Text Nat :=
  match w.files.openStream w.file.path with
  | .error refusal => .error refusal.reason
  | .ok id => .ok id

def change (e : FileSystem.Edit) (w : WatchedFile) : WatchedFile :=
  { w with files := w.files.edit e }

/-- A stream is an opened file, which is read as it is at the time of reading. -/
def source : Source WatchedFile Int Nat where
  identity w := w.file.path.text
  marker := marker
  openStream := openStream
  read id w := .ok (w.files.storedAt id).contents

end WatchedFile

end LiveTemplates
