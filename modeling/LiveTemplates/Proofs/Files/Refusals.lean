import LiveTemplates.Proofs.Watch.InPlace

/-!
# Where refusals come from

An operation on a file is refused because it was made to fail, because its path leads nowhere, or
because there is a directory. What a refusal says can be encoded, unless it repeats a text that it
was told.
-/

namespace LiveTemplates

namespace Text

def hasLone (t : Text) : Bool := t.any CodePoint.isLone

@[simp] theorem hasLone_append (s t : Text) : hasLone (s ++ t) = (s.hasLone || t.hasLone) :=
  List.any_append

@[simp] theorem hasLone_ofChars (cs : List Char) : hasLone (ofChars cs) = false := by
  simp [hasLone, ofChars, List.any_map, CodePoint.isLone]

@[simp] theorem hasLone_ofString (s : String) : hasLone (ofString s) = false :=
  hasLone_ofChars s.toList

@[simp] theorem hasLone_ofNat (n : Nat) : hasLone (ofNat n) = false := hasLone_ofChars _

@[simp] theorem hasLone_hex (width n : Nat) : hasLone (hex width n) = false := hasLone_ofChars _

end Text

theorem Unencodable.hasLone_message (u : Unencodable) : u.message.hasLone = false := by
  unfold Unencodable.message
  dsimp only
  split <;> simp

/-- Only a refusal that was told its text can be no valid text. -/
theorem Refusal.hasLone_reason {refusal : Refusal} (h : refusal.reason.hasLone) :
    ∃ message, refusal = .told message ∧ message.hasLone := by
  cases refusal with
  | told message => exact ⟨message, rfl, h⟩
  | nulByte => cases (Text.hasLone_ofString _).symm.trans h
  | unencodable u => cases u.hasLone_message.symm.trans h
  | system e => cases e <;> cases (Text.hasLone_ofString _).symm.trans h

namespace FileSystem

inductive Refuses (files : FileSystem) (path : Path) (refusal : Refusal) : Prop
  | made (operation : Operation) :
    files.faults.find? (path.text, operation) = some refusal → Refuses files path refusal
  | lost : files.lookup path = .error refusal → Refuses files path refusal
  | directory : refusal = .system .isDirectory → Refuses files path refusal

variable {files : FileSystem} {path : Path} {refusal : Refusal} {operation : Operation}

theorem refuses_of_allowed (h : files.allowed path operation = .error refusal) :
    files.Refuses path refusal := by
  unfold allowed at h
  split at h
  · rename_i hfault
    cases h
    exact .made operation hfault
  · cases h

theorem refuses_of_modified (h : files.modified path = .error refusal) :
    files.Refuses path refusal := by
  unfold modified at h
  split at h
  · rename_i hallowed
    cases h
    exact refuses_of_allowed hallowed
  · split at h
    · rename_i hlookup
      cases h
      exact .lost hlookup
    · cases h
    · cases h

theorem refuses_of_openedFile (h : files.openedFile path operation = .error refusal) :
    files.Refuses path refusal := by
  unfold openedFile at h
  split at h
  · rename_i hallowed
    cases h
    exact refuses_of_allowed hallowed
  · split at h
    · rename_i hlookup
      cases h
      exact .lost hlookup
    · cases h
      exact .directory rfl
    · cases h

theorem refuses_of_contents (h : files.contents path = .error refusal) :
    files.Refuses path refusal := by
  unfold contents at h
  split at h
  · rename_i hopened
    cases h
    exact refuses_of_openedFile hopened
  · cases h

theorem reach_ne_told (files : FileSystem) (path : Path) (message : Text) :
    files.reach path ≠ .error (.told message) := by
  unfold reach Path.check
  cases path.text.octets with
  | error u => simp
  | ok octets =>
    by_cases hnul : .char '\x00' ∈ path.text
    · simp [hnul]
    · by_cases hlong : pathLimit < octets.length
      · simp [hnul, hlong]
      · cases hbarrier : files.barriers.find? path.text <;> simp [hnul, hlong]

/-- A path is never refused with a told text. -/
theorem lookup_ne_told (files : FileSystem) (path : Path) (message : Text) :
    files.lookup path ≠ .error (.told message) := by
  have hreach := reach_ne_told files path message
  unfold lookup
  split
  · rename_i refusal hrefusal
    rw [hrefusal] at hreach
    simpa using hreach
  · split
    · simp
    · split <;> simp

/-- A refusal that cannot be encoded is a fault that was told such a text. -/
theorem Refuses.told_of_hasLone (h : files.Refuses path refusal) (lone : refusal.reason.hasLone) :
    ∃ operation message, files.faults.find? (path.text, operation) = some (.told message) ∧
      message.hasLone := by
  obtain ⟨message, rfl, hmessage⟩ := Refusal.hasLone_reason lone
  cases h with
  | made operation hfault => exact ⟨operation, message, hfault, hmessage⟩
  | lost hlookup => exact (lookup_ne_told files path message hlookup).elim
  | directory hdirectory => cases hdirectory

end FileSystem

namespace WatchedFile

variable {w w' : WatchedFile} {reason : Text}

theorem refuses_of_marker (h : source.marker w = (.error reason, w')) :
    ∃ refusal, reason = refusal.reason ∧ w.files.Refuses w.file.path refusal := by
  simp only [source, marker] at h
  split at h
  · split at h
    · rename_i refusal hmodified
      cases h
      exact ⟨refusal, rfl, FileSystem.refuses_of_modified hmodified⟩
    · cases h
  · split at h
    · rename_i refusal hcontents
      cases h
      exact ⟨refusal, rfl, FileSystem.refuses_of_contents hcontents⟩
    · cases h

theorem refuses_of_openStream (h : source.openStream w = .error reason) :
    ∃ refusal, reason = refusal.reason ∧ w.files.Refuses w.file.path refusal := by
  simp only [source, openStream] at h
  split at h
  · rename_i refusal hopen
    cases h
    exact ⟨refusal, rfl, FileSystem.refuses_of_openedFile hopen⟩
  · cases h

end WatchedFile

end LiveTemplates
