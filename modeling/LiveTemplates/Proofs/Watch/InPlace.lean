import LiveTemplates.Proofs.Watch.Following
import LiveTemplates.Watch.File

/-!
# Files that are edited in place

An edit in place writes or touches the file that is at a path already. It leaves the file the same
one, so a stream that was opened before reads what is at the path afterwards.
-/

namespace LiveTemplates

namespace FileSystem

variable {fs fs' : FileSystem} {path : Path}

theorem openedFile_eq_ok {operation : Operation} {id : Nat} :
    fs.openedFile path operation = .ok id ↔
      fs.allowed path operation = .ok () ∧ fs.lookup path = .ok (.file id) := by
  unfold openedFile
  split
  · simp_all
  · split <;> simp_all

theorem contents_eq_ok {bytes : Bytes} :
    fs.contents path = .ok bytes ↔ fs.allowed path .read = .ok () ∧
      ∃ id, fs.lookup path = .ok (.file id) ∧ (fs.storedAt id).contents = bytes := by
  unfold contents
  split
  · rename_i refusal hopened
    simp only [reduceCtorEq, false_iff, not_and, not_exists]
    rintro hallowed id hlookup
    rw [openedFile_eq_ok.2 ⟨hallowed, hlookup⟩] at hopened
    cases hopened
  · rename_i id hopened
    obtain ⟨hallowed, hlookup⟩ := openedFile_eq_ok.1 hopened
    simp [hallowed, hlookup]

/-- A file that can be read and opened is read through its stream as it is read at its path. -/
theorem storedAt_of_openStream {bytes : Bytes} {id : Nat} (hread : fs.contents path = .ok bytes)
    (hopen : fs.openStream path = .ok id) : (fs.storedAt id).contents = bytes := by
  rw [openStream, openedFile_eq_ok] at hopen
  obtain ⟨-, id', hlookup, hstored⟩ := contents_eq_ok.1 hread
  rw [hopen.2] at hlookup
  cases hlookup
  exact hstored

theorem reach_eq_ok : fs.reach path = .ok () ↔
    path.check = .ok () ∧ fs.barriers.find? path.text = none := by
  unfold reach
  cases path.check with
  | error refusal => simp
  | ok => cases hbarrier : fs.barriers.find? path.text <;> simp

theorem lookup_eq_ok {entry : DirectoryEntry} : fs.lookup path = .ok entry ↔
    fs.reach path = .ok () ∧ ∃ names, fs.place path = .ok names ∧
      fs.entryAt names = some entry := by
  unfold lookup
  cases fs.reach path with
  | error refusal => simp
  | ok =>
    cases fs.place path with
    | error e => simp
    | ok names => cases hentry : fs.entryAt names <;> simp [hentry]

def Edit.InPlace (path : Path) : Edit → Prop
  | .write p _ _ => p = path
  | .touch p _ => p = path
  | _ => False

/-- What two file systems have in common that differ in the contents and times of files only. -/
structure SameNames (fs fs' : FileSystem) : Prop where
  entries : fs'.entries = fs.entries
  faults : fs'.faults = fs.faults
  barriers : fs'.barriers = fs.barriers
  workingDirectory : fs'.workingDirectory = fs.workingDirectory

namespace SameNames

theorem refl (fs : FileSystem) : SameNames fs fs := ⟨rfl, rfl, rfl, rfl⟩

theorem trans {fs'' : FileSystem} (h : SameNames fs fs') (h' : SameNames fs' fs'') :
    SameNames fs fs'' where
  entries := h'.entries.trans h.entries
  faults := h'.faults.trans h.faults
  barriers := h'.barriers.trans h.barriers
  workingDirectory := h'.workingDirectory.trans h.workingDirectory

theorem allowed (h : SameNames fs fs') (operation : Operation) :
    fs'.allowed path operation = fs.allowed path operation := by
  simp only [FileSystem.allowed, h.faults]

/-- Where a path leads does not depend on contents and times. -/
theorem lookup (h : SameNames fs fs') (path : Path) : fs'.lookup path = fs.lookup path := by
  have hentry : fs'.entryAt = fs.entryAt := by
    funext names
    cases names with
    | nil => rfl
    | cons first more => simp only [entryAt, h.entries]
  have henter : fs'.enter = fs.enter := by
    funext names t
    simp only [enter, hentry]
  have hfollow : ∀ names ts, fs'.follow names ts = fs.follow names ts := by
    intro names ts
    induction ts generalizing names with
    | nil => rfl
    | cons t rest ih => simp only [follow, henter, ih]
  simp only [FileSystem.lookup, reach, place, hfollow, hentry, h.barriers, h.workingDirectory]

end SameNames

theorem target_of_lookup {id : Nat} {names : List Bytes} (h : fs.lookup path = .ok (.file id))
    (htarget : fs.target path = .ok names) : fs.entryAt names = some (.file id) := by
  obtain ⟨hreach, names', hplace, hentry⟩ := lookup_eq_ok.1 h
  rw [target, (reach_eq_ok.1 hreach).1] at htarget
  obtain rfl : names' = names := Except.ok.inj (hplace.symm.trans htarget)
  exact hentry

theorem sameNames_edit {id : Nat} {e : Edit} (h : fs.lookup path = .ok (.file id))
    (inPlace : e.InPlace path) : SameNames fs (fs.edit e) := by
  cases e with
  | write p contents modified =>
    obtain rfl : p = path := inPlace
    cases htarget : fs.target p with
    | error e => simpa [edit, write, htarget] using SameNames.refl fs
    | ok names =>
      have hentry := target_of_lookup h htarget
      simp only [edit, write, htarget, hentry]
      exact ⟨rfl, rfl, rfl, rfl⟩
  | touch p modified =>
    obtain rfl : p = path := inPlace
    cases htarget : fs.target p with
    | error e => simpa [edit, touch, htarget] using SameNames.refl fs
    | ok names =>
      have hentry := target_of_lookup h htarget
      simp only [edit, touch, htarget, hentry]
      exact ⟨rfl, rfl, rfl, rfl⟩
  | makeDirectory | remove | rename | fault | bar => exact inPlace.elim

end FileSystem

def Step.InPlace (path : Path) : Step FileSystem.Edit → Prop
  | .change e => e.InPlace path
  | _ => False

namespace WatchedFile

variable {A F : Type} {compile : Compiler A F} {path : Path}

theorem source_openStream_eq_ok {w : WatchedFile} {id : Nat} :
    source.openStream w = .ok id ↔ w.files.openStream w.file.path = .ok id := by
  simp only [source, openStream]
  split <;> simp_all

theorem lookup_of_openStream {w : WatchedFile} {id : Nat} (h : source.openStream w = .ok id) :
    w.files.lookup w.file.path = .ok (.file id) := by
  rw [source_openStream_eq_ok, FileSystem.openStream, FileSystem.openedFile_eq_ok] at h
  exact h.2

theorem source_marker_files (w : WatchedFile) : (source.marker w).2.files = w.files := by
  simp only [source, marker]
  split <;> split <;> rfl

theorem source_marker_path (w : WatchedFile) : (source.marker w).2.file.path = w.file.path := by
  simp only [source, marker]
  split <;> split <;> rfl

/-- Edits in place leave the watched file the same one. -/
theorem runAll_inPlace {w : Watch WatchedFile A Int F} {id : Nat}
    {steps : List (Step FileSystem.Edit)} (hpath : w.resource.file.path = path)
    (hfile : w.resource.files.lookup path = .ok (.file id))
    (inPlace : ∀ step ∈ steps, step.InPlace path) :
    let w' := Step.runAll (source.bench change compile) w steps
    w'.resource.file = w.resource.file ∧ w.resource.files.SameNames w'.resource.files := by
  induction steps generalizing w with
  | nil => exact ⟨rfl, .refl _⟩
  | cons step rest ih =>
    obtain ⟨hstep, hrest⟩ := List.forall_mem_cons.1 inPlace
    cases step with
    | change e =>
      have hsame : w.resource.files.SameNames (w.resource.files.edit e) :=
        FileSystem.sameNames_edit hfile hstep
      have hfile' : (w.resource.files.edit e).lookup path = .ok (.file id) := by
        rw [hsame.lookup, hfile]
      let w₁ : Watch WatchedFile A Int F := { w with resource := change e w.resource }
      let w' := Step.runAll (source.bench change compile) w₁ rest
      have hlater : w'.resource.file = w₁.resource.file ∧
          w₁.resource.files.SameNames w'.resource.files := ih hpath hfile' hrest
      exact ⟨hlater.1, hsame.trans hlater.2⟩
    | request | staleness | marker | contents | identity | description | requestDuring =>
      exact hstep.elim

/-- After edits in place a stream opened before holds what is at the path. -/
theorem lookup_runAll_inPlace {w : Watch WatchedFile A Int F} {id : Nat}
    {steps : List (Step FileSystem.Edit)} (hpath : w.resource.file.path = path)
    (hopen : source.openStream w.resource = .ok id)
    (inPlace : ∀ step ∈ steps, step.InPlace path) :
    let w' := Step.runAll (source.bench change compile) w steps
    w'.resource.files.lookup path = .ok (.file id) := by
  intro w'
  have hlookup := lookup_of_openStream hopen
  rw [hpath] at hlookup
  have hsame : w.resource.files.SameNames w'.resource.files :=
    (runAll_inPlace hpath hlookup inPlace).2
  rw [hsame.lookup, hlookup]

def template : Path := ⟨.relative, [Text.ofString "t.json"]⟩

end WatchedFile

end LiveTemplates
