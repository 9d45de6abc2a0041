import LiveTemplates.Proofs.Registry.Outlook

/-!
# Why loads fail

A load of a template fails because something about its file is refused, or because the compiler
fails on what a stream of the file delivers. There is no third reason: the markers of files can be
compared, and a stream that was opened can be read.
-/

namespace LiveTemplates

variable {A F : Type}

/-- A stream of the file at a path can be opened, and it delivers the contents. -/
def FileSystem.Opens (files : FileSystem) (path : Path) (contents : Bytes) : Prop :=
  ∃ id, files.openStream path = .ok id ∧ (files.storedAt id).contents = contents

namespace WatchedFile

variable {compile : Compiler A F}

inductive Fails (compile : Compiler A F) (files : FileSystem) (path : Path) :
    LoadFailure Int F → Prop
  | refused {refusal : Refusal} (h : files.Refuses path refusal) :
    Fails compile files path (.unavailable ⟨path.text, refusal.reason⟩)
  | uncompiled {contents : Bytes} {failure : CompileFailure F} (h : files.Opens path contents)
    (fails : compile contents = .error failure) : Fails compile files path failure.toLoad

end WatchedFile

namespace Registry

variable {compile : Compiler A F} {files : FileSystem} {r : Registry A} {name : Text} {path : Path}

end Registry

end LiveTemplates
