import LiveTemplates.Proofs.Registry.Standing

/-!
# Registries over digested files

Whatever loads and checks a registry has seen, and in whichever order, what its caches hold was
compiled from contents that were seen for their markers. If every file that can be read can be
opened, and no two contents of a file have one digest, a load therefore answers what the compiler
makes of the present contents, and nothing that came before makes a difference to its value.
-/

namespace LiveTemplates

variable {A F : Type}

namespace FileSystem

def compiledAt (compile : Compiler A F) (files : FileSystem) (path : Path) :
    Except (LoadFailure Int F) A :=
  match files.contents path with
  | .error refusal => .error (.unavailable ⟨path.text, refusal.reason⟩)
  | .ok bytes => (compile bytes).mapError CompileFailure.toLoad

structure Within (occurring : Path → List Bytes) (files : FileSystem) : Prop where
  openable : ∀ path, files.allowed path .openStream = .ok ()
  occurs : ∀ path bytes, files.contents path = .ok bytes → bytes ∈ occurring path

/-- A file that can be read can be opened, unless that is made to fail. -/
theorem openStream_of_contents {files : FileSystem} {path : Path} {bytes : Bytes}
    (openable : files.allowed path .openStream = .ok ()) (h : files.contents path = .ok bytes) :
    ∃ id, files.openStream path = .ok id := by
  obtain ⟨-, id, hlookup, -⟩ := contents_eq_ok.1 h
  exact ⟨id, openedFile_eq_ok.2 ⟨openable, hlookup⟩⟩

end FileSystem

namespace WatchedFile

/-- A request that nothing disturbs leaves a snapshot that fits. -/
theorem fits_request {compile : Compiler A F} {path : Path} {occurring : List Bytes}
    {w : Watch WatchedFile A Int F} (h : w.Fits (Fitting (ValueOf compile) occurring))
    (hw : Digested path w.resource)
    (hoccurring : ∀ bytes, w.resource.contents = .ok bytes → bytes ∈ occurring) :
    (request compile w).2.Fits (Fitting (ValueOf compile) occurring) := by
  refine h.serve marker_looks fitting_looked (fun v => .refl v) fun live value u hcompiled => ?_
  refine fitting_reloaded (digested_marker hw) ?_ (hcompiled.reloads fun v => .refl v)
  intro bytes hbytes
  rw [source_marker_contents] at hbytes
  exact hoccurring bytes hbytes

end WatchedFile

namespace Registry

open WatchedFile (Fitting ValueOf)

variable {compile : Compiler A F} {occurring : Path → List Bytes} {files : FileSystem}
variable {r : Registry A} {name : Text} {path : Path} {entry : CacheEntry A}

theorem WellKept.contents_at (h : r.WellKept) (files : FileSystem) (path : Path) :
    WatchedFile.contents ⟨(r.entryAt path).file, files⟩ = files.contents path := by
  rw [WatchedFile.contents, h.entryAt_path]

/-- What stands at each path was compiled from contents that were seen for its marker. -/
def Faithful (compile : Compiler A F) (occurring : Path → List Bytes) (r : Registry A) : Prop :=
  ∀ path s, (r.tracked path).2.held = some s → ∃ g, (r.tracked path).1.mark = .generation g ∧
    g.Marks (ValueOf compile) (occurring path) s.marker s.artifact.value

namespace Faithful

theorem empty (base : Path) (strategy : Strategy) :
    Faithful compile occurring ({ base, strategy } : Registry A) := by
  intro path s hs
  rw [tracked_of_none rfl] at hs
  cases hs

theorem fits (h : Faithful compile occurring r) (files : FileSystem) (path : Path) :
    (r.atWork (F := F) files (r.entryAt path)).Fits (Fitting (ValueOf compile) (occurring path)) :=
  fun s hs => h path s hs

theorem settle (h : Faithful compile occurring r) {w : Watch WatchedFile A Int F}
    (hw : w.Fits (Fitting (ValueOf compile) (occurring path))) :
    Faithful compile occurring ((r.cacheAt path).2.settle path entry w) := by
  intro q s hs
  rw [tracked_settle] at hs ⊢
  split at hs
  · rename_i heq
    subst heq
    rw [if_pos rfl]
    exact hw s hs
  · rename_i hne
    rw [if_neg hne]
    exact h q s hs

theorem leaving (h : Faithful compile occurring r) (dropped : Option Path)
    (warnings : List Record) : Faithful compile occurring (r.leaving dropped warnings) := by
  intro q s hs
  rw [tracked_leaving] at hs ⊢
  split at hs
  · cases hs
  · rename_i hne
    rw [if_neg hne]
    exact h q s hs

theorem load (h : Faithful compile occurring r) (wellKept : r.WellKept)
    (digest : r.strategy = .digest) (within : files.Within occurring) (name : Text) :
    Faithful compile occurring (r.load compile files name).2 := by
  cases hpath : r.pathOf name with
  | error e =>
    simp only [Registry.load, hpath]
    exact h
  | ok path =>
    rw [load_eq hpath]
    have hw := wellKept.digested digest files path
    refine (h.settle (WatchedFile.fits_request (h.fits files path) hw ?_)).leaving _ _
    intro bytes hbytes
    exact within.occurs path bytes ((wellKept.contents_at files path).symm.trans hbytes)

theorem staleness (h : Faithful compile occurring r) (wellKept : r.WellKept) (files : FileSystem)
    (name : Text) : Faithful compile occurring (r.staleness (F := F) files name).2 := by
  cases hpath : r.pathOf name with
  | error e =>
    simp only [Registry.staleness, find, hpath]
    exact h
  | ok path =>
    by_cases present : r.Holds path ∨ files.isFile path = .ok true
    · rw [staleness_of_present hpath present wellKept.entryAt_path]
      obtain ⟨log, -, hchecked⟩ := checked_snd (F := F) files r path
      refine h.settle ?_
      rw [hchecked]
      intro s hs
      exact WatchedFile.fitting_looked _ _ rfl s.marker s.artifact.value (h.fits files path s hs)
    · rw [staleness_of_absent hpath present]
      exact h

/-- A load answers as if it compiled the present contents. -/
theorem served_value (h : Faithful compile occurring r) (wellKept : r.WellKept)
    (digest : r.strategy = .digest) (within : files.Within occurring)
    (collisionless : Generation.Collisionless (occurring path)) :
    (r.served compile files path).1.map (·.value) = files.compiledAt compile path := by
  have hw := wellKept.digested digest files path
  have hcontents := wellKept.contents_at files path
  unfold FileSystem.compiledAt
  cases hbytes : files.contents path with
  | error refusal =>
    rw [hbytes] at hcontents
    exact congrArg (Except.map _) (WatchedFile.serve_of_refusal hw hcontents)
  | ok bytes =>
    rw [hbytes] at hcontents
    have hserve := WatchedFile.serve_of_fitting (h.fits files path) rfl hw collisionless hcontents
      (within.occurs path bytes hbytes)
    rcases hserve with hserve | ⟨refusal, hrefusal, -⟩
    · exact hserve
    · obtain ⟨id, hopen⟩ := FileSystem.openStream_of_contents (within.openable path) hbytes
      have hrefusal : files.openStream path = .error refusal := hrefusal
      rw [hopen] at hrefusal
      cases hrefusal

theorem load_value (h : Faithful compile occurring r) (wellKept : r.WellKept)
    (digest : r.strategy = .digest) (within : files.Within occurring)
    (collisionless : ∀ path, Generation.Collisionless (occurring path)) (name : Text) :
    (r.load compile files name).1.map (·.value) =
      match r.pathOf name with
      | .error e => .error (.notFound e)
      | .ok path => (files.compiledAt compile path).mapError .load := by
  cases hpath : r.pathOf name with
  | error e => simp only [Registry.load, hpath, Except.map]
  | ok path =>
    rw [load_eq hpath]
    dsimp only
    rw [← h.served_value wellKept digest within (collisionless path)]
    cases (r.served compile files path).1 <;> rfl

end Faithful

end Registry

end LiveTemplates
