import LiveTemplates.Proofs.Registry.Outlook
import LiveTemplates.Proofs.Registry.Standing
import LiveTemplates.Proofs.Registry.Steps
import LiveTemplates.Proofs.Watch.Failure

/-!
# Where the artifacts of a registry come from

Every artifact that a registry holds was compiled from some contents, whatever its files went
through since. So was every artifact that a load gives. Where what is held is outdated, these are
the present contents.
-/

namespace LiveTemplates

variable {A F : Type} {compile : Compiler A F}

def Compiler.Gives (compile : Compiler A F) (value : A) : Prop :=
  ∃ contents, compile contents = .ok value

namespace WatchedFile

def Given (compile : Compiler A F) (_ : WatchedFile) (_ : Int) (value : A) : Prop :=
  compile.Gives value

theorem given_request {w : Watch WatchedFile A Int F} (h : w.Fits (Given compile)) :
    (request compile w).2.Fits (Given compile) := by
  have hmarker : ∀ r, Relation.ReflTransGen AnyMove r (source.marker r).2 :=
    fun r => .single trivial
  have kept : Kept AnyMove (Given compile) := fun _ _ _ _ _ hgives => hgives
  refine h.serve hmarker kept (fun v => .refl v) fun live value u hcompiled => ?_
  obtain ⟨-, -, contents, -, -, -, -, hvalue, -⟩ := hcompiled.of_stream
  exact ⟨contents, hvalue⟩

/-- The artifact that a request gives is held at its end. -/
theorem gives_of_request {w : Watch WatchedFile A Int F} (h : w.Fits (Given compile))
    {a : Artifact A} (hserve : (request compile w).1 = .ok a) : compile.Gives a.value := by
  obtain ⟨s, hs, rfl⟩ := held_of_serve_ok (Prod.ext hserve rfl)
  exact given_request h s hs

end WatchedFile

namespace Registry

variable {files : FileSystem} {r r' : Registry A} {path : Path} {entry : CacheEntry A}

variable (compile) in
/-- Where what is held is outdated and the file can be read, a load gives what the compiler does. -/
theorem WellKept.load_outdated (h : r.WellKept) {name : Text} (hname : r.pathOf name = .ok path)
    {live : Int} {c : Cache A Int} {bytes : Bytes}
    {id : Nat} (houtlook : r.outlook files path = (.ok live, c)) (stale : c.outdatedAt live)
    (hbytes : files.contents path = .ok bytes) (hopen : files.openStream path = .ok id) :
    (r.load compile files name).1.map (·.value) =
      ((compile bytes).mapError CompileFailure.toLoad).mapError .load := by
  obtain ⟨hlook, hcache⟩ := outlook_eq houtlook
  have hfirst : WatchedFile.source.marker (r.atWork (F := F) files (r.entryAt path)).resource =
      (.ok live, (r.look files path).2) := hlook
  have hsecond : WatchedFile.source.marker (r.look files path).2 =
      (.ok live, (r.look files path).2) := by
    rw [← hlook, look]
    exact WatchedFile.source_settled _
  have hstale : Snapshot.freshAt (F := F) (r.entryAt path).cache.held live = .ok none := by
    rw [Cache.freshAt_eq, hcache, if_pos stale]
  have hcontents : (r.look files path).2.contents = .ok bytes := by
    rw [look, WatchedFile.source_marker_contents, WatchedFile.contents, h.entryAt_path, hbytes]
  have hpath : (r.look files path).2.files.openStream (r.look files path).2.file.path = .ok id := by
    rw [look, WatchedFile.source_marker_files, WatchedFile.source_marker_path, h.entryAt_path,
      hopen]
  have hserved : (r.served compile files path).1.map (·.value) = _ :=
    Source.serve_settled rfl hfirst hsecond
  simp only [atWork, hstale, WatchedFile.source_recompiled hcontents, hpath] at hserved
  rw [load_eq hname, ← hserved]
  cases (r.served compile files path).1 <;> rfl

def Sourced (compile : Compiler A F) (r : Registry A) : Prop :=
  ∀ path s, (r.tracked path).2.held = some s → compile.Gives s.artifact.value

namespace Sourced

theorem empty (base : Path) (strategy : Strategy) :
    Sourced compile ({ base, strategy } : Registry A) := by
  intro path s hs
  rw [tracked_of_none rfl] at hs
  cases hs

theorem fits (h : r.Sourced compile) (files : FileSystem) (path : Path) :
    (r.atWork (F := F) files (r.entryAt path)).Fits (WatchedFile.Given compile) :=
  fun s hs => h path s hs

theorem cacheAt (h : r.Sourced compile) (path : Path) : (r.cacheAt path).2.Sourced compile := by
  intro q s hs
  rw [tracked_cacheAt] at hs
  exact h q s hs

theorem settle (h : r.Sourced compile) {w : Watch WatchedFile A Int F}
    (hw : w.Fits (WatchedFile.Given compile)) :
    ((r.cacheAt path).2.settle path entry w).Sourced compile := by
  intro q s hs
  rw [tracked_settle] at hs
  split at hs
  · exact hw s hs
  · exact h q s hs

theorem leaving (h : r.Sourced compile) (dropped : Option Path) (warnings : List Record) :
    (r.leaving dropped warnings).Sourced compile := by
  intro q s hs
  rw [tracked_leaving] at hs
  split at hs
  · cases hs
  · exact h q s hs

theorem load (h : r.Sourced compile) (files : FileSystem) (name : Text) :
    (r.load compile files name).2.Sourced compile := by
  cases hpath : r.pathOf name with
  | error e =>
    simp only [Registry.load, hpath]
    exact h
  | ok path =>
    rw [load_eq hpath]
    exact (h.settle (WatchedFile.given_request (h.fits files path))).leaving _ _

theorem gives_of_load (h : r.Sourced compile) {name : Text} {a : Artifact A}
    (hload : (r.load compile files name).1 = .ok a) : compile.Gives a.value := by
  cases hpath : r.pathOf name with
  | error e =>
    simp only [Registry.load, hpath] at hload
    cases hload
  | ok path =>
    rw [load_eq hpath] at hload
    exact WatchedFile.gives_of_request (h.fits files path) (mapError_eq_ok.1 hload)

theorem find (h : r.Sourced compile) (files : FileSystem) (name : Text) :
    (r.find (F := F) files name).2.Sourced compile := by
  rcases find_snd (F := F) files r name with hfind | ⟨path, -, -, hfind⟩
  · rw [hfind]
    exact h
  · rw [hfind]
    exact h.cacheAt path

theorem cacheOf (h : r.Sourced compile) (name : Text) :
    (r.cacheOf (F := F) name).2.Sourced compile := by
  unfold Registry.cacheOf
  split
  · exact h
  · exact h.cacheAt _

/-- A look at a file leaves what is held, and makes empty caches at most. -/
theorem looks (h : r.Sourced compile) (hlooks : r.Looks r') : r'.Sourced compile := by
  intro q s hs
  cases hentry : r.entries.find? q with
  | some entry =>
    obtain ⟨entry', hentry', -, hcache⟩ := hlooks.kept hentry
    rw [tracked_of_find? hentry', hcache] at hs
    refine h q s ?_
    rwa [tracked_of_find? hentry]
  | none =>
    cases hentry' : r'.entries.find? q with
    | some entry' =>
      rw [tracked_of_find? hentry', hlooks.fresh hentry hentry'] at hs
      cases hs
    | none =>
      rw [tracked_of_none hentry'] at hs
      cases hs

end Sourced

end Registry

namespace Site

variable {site : Site A}

theorem run_sourced (wellKept : site.registry.WellKept) (h : site.registry.Sourced compile)
    (step : Step) : (site.run compile step).2.registry.Sourced compile := by
  cases step with
  | load name => exact h.load site.files name
  | find name => exact h.find site.files name
  | cacheOf name => exact h.cacheOf name
  | staleness name => exact h.looks (wellKept.staleness_looks (F := F) site.files name)
  | pathOf name =>
    rw [run_pathOf]
    exact h
  | names => exact h
  | edit e => exact h

theorem runAll_sourced (wellKept : site.registry.WellKept) (h : site.registry.Sourced compile)
    (steps : List Step) : (site.runAll compile steps).registry.Sourced compile := by
  induction steps generalizing site with
  | nil => exact h
  | cons step rest ih =>
    exact ih (run_wellKept compile step wellKept) (run_sourced wellKept h step)

end Site

end LiveTemplates
