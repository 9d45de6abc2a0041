import LiveTemplates.Proofs.Registry.Contents
import LiveTemplates.Proofs.Registry.Matching

/-!
# Registries that never forget

A registry that keeps every cache it has made serves as one that forgets does, over any run.
-/

namespace LiveTemplates

variable {A F : Type}

namespace Site

/-- A step on a registry that never forgets. -/
def runKeeping (compile : Compiler A F) (site : Site A) :
    Step → Except (RegistryFailure F) (Answer A) × Site A
  | .load name => site.answering .artifact (site.registry.loadKeeping compile site.files name)
  | step => site.run compile step

def runAllKeeping (compile : Compiler A F) (site : Site A) (steps : List Step) : Site A :=
  steps.foldl (fun site step => (site.runKeeping compile step).2) site

theorem runAllKeeping_nil (compile : Compiler A F) (site : Site A) :
    site.runAllKeeping compile [] = site := rfl

structure Matching (offsets : Path → Option Int) (site site' : Site A) : Prop where
  files : site'.files = site.files
  registry : site.registry.Matching offsets site'.registry

variable {compile : Compiler A F} {site site' : Site A} {offsets : Path → Option Int}

variable (compile) in
theorem run_matching (h : Matching offsets site site') (step : Step) :
    ∃ offsets', (∀ q d, offsets q = some d → offsets' q = some d) ∧
      Matching offsets' (site.run compile step).2 (site'.runKeeping compile step).2 := by
  obtain ⟨registry, files⟩ := site
  obtain ⟨registry', files'⟩ := site'
  obtain ⟨rfl, hmatching⟩ := h
  have hpaths (name : Text) : registry'.pathOf name = registry.pathOf name :=
    Registry.pathOf_of_base hmatching.base name
  cases step with
  | find name => exact ⟨offsets, fun _ _ => id, rfl, hmatching.find (F := F) files' name⟩
  | cacheOf name => exact ⟨offsets, fun _ _ => id, rfl, hmatching.cacheOf (F := F) name⟩
  | names => exact ⟨offsets, fun _ _ => id, rfl, hmatching⟩
  | edit e => exact ⟨offsets, fun _ _ => id, rfl, hmatching⟩
  | pathOf name =>
    have hsame : (runKeeping compile ⟨registry', files'⟩ (.pathOf name)).2 =
        ⟨registry', files'⟩ := by simp only [runKeeping, run_pathOf]
    rw [run_pathOf, hsame]
    exact ⟨offsets, fun _ _ => id, rfl, hmatching⟩
  | staleness name =>
    cases hpath : registry.pathOf name with
    | error e =>
      refine ⟨offsets, fun _ _ => id, rfl, ?_⟩
      simpa only [run, runKeeping, answering, Registry.staleness, Registry.find, hpaths, hpath]
        using hmatching
    | ok path =>
      obtain ⟨-, offset, hkept, hchecked⟩ := hmatching.staleness (F := F) files' hpath
      exact ⟨_, fun _ _ => Registry.settled_keeps hkept, rfl, hchecked⟩
  | load name =>
    cases hpath : registry.pathOf name with
    | error e =>
      refine ⟨offsets, fun _ _ => id, rfl, ?_⟩
      simpa only [run, runKeeping, answering, Registry.load, Registry.loadKeeping, hpaths, hpath]
        using hmatching
    | ok path =>
      obtain ⟨-, offset, hkept, hloaded⟩ := hmatching.load compile files' hpath
      exact ⟨_, fun _ _ => Registry.settled_keeps hkept, rfl, hloaded⟩

variable (compile) in
theorem runAll_matching (h : Matching offsets site site') (steps : List Step) :
    ∃ offsets', (∀ q d, offsets q = some d → offsets' q = some d) ∧
      Matching offsets' (site.runAll compile steps) (site'.runAllKeeping compile steps) := by
  induction steps generalizing site site' offsets with
  | nil => exact ⟨offsets, fun _ _ => id, h⟩
  | cons step rest ih =>
    obtain ⟨middle, hmiddle, hstep⟩ := run_matching compile h step
    obtain ⟨last, hlast, hrest⟩ := ih hstep
    exact ⟨last, fun q d hq => hlast q d (hmiddle q d hq), hrest⟩

theorem load_answer (h : Matching offsets site site') (name : Text) :
    (site.run compile (.load name)).1 = (site'.runKeeping compile (.load name)).1 := by
  obtain ⟨registry, files⟩ := site
  obtain ⟨registry', files'⟩ := site'
  obtain ⟨rfl, hmatching⟩ := h
  have hpath' : registry'.pathOf name = registry.pathOf name :=
    Registry.pathOf_of_base hmatching.base name
  cases hpath : registry.pathOf name with
  | error e =>
    simp only [run, runKeeping, answering, Registry.load, Registry.loadKeeping, hpath', hpath]
  | ok path =>
    obtain ⟨hanswer, -⟩ := hmatching.load compile files' hpath
    simp only [run, runKeeping, answering]
    rw [hanswer]

theorem staleness_answer (h : Matching offsets site site') {name : Text} {path : Path}
    (hpath : site.registry.pathOf name = .ok path)
    (held : (site.run compile (.staleness name)).2.registry.Holds path) :
    (site'.runKeeping compile (.staleness name)).2.registry.Holds path ∧
      (site.run compile (.staleness name)).1 =
        (site'.runKeeping compile (.staleness name)).1 := by
  obtain ⟨registry, files⟩ := site
  obtain ⟨registry', files'⟩ := site'
  obtain ⟨rfl, hmatching⟩ := h
  obtain ⟨hanswer, offset, -, hchecked⟩ :=
    hmatching.staleness (F := F) files' hpath
  refine ⟨hchecked.holds held, ?_⟩
  simp only [run, runKeeping, answering]
  rw [hanswer held]

end Site

/-- A registry that never forgets serves as one that forgets does, over any run. -/
theorem forgetting_is_invisible (compile : Compiler A F) (base : Path) (strategy : Strategy)
    (files : FileSystem) (before : List Site.Step) :
    let start : Site A := ⟨{ base, strategy }, files⟩
    let site := start.runAll compile before
    let kept := start.runAllKeeping compile before
    (∀ name, (site.run compile (.load name)).1 = (kept.runKeeping compile (.load name)).1) ∧
    (∀ name path, site.registry.pathOf name = .ok path →
      (site.run compile (.staleness name)).2.registry.Holds path →
      (kept.runKeeping compile (.staleness name)).2.registry.Holds path ∧
        (site.run compile (.staleness name)).1 =
          (kept.runKeeping compile (.staleness name)).1) ∧
    ∀ path, site.registry.HasCompiled path ∨ kept.registry.HasCompiled path →
      ∃ d : Int, (strategy = .modified → d = 0) ∧ ∀ later,
        Registry.CompiledAlike d (site.runAll compile later).registry
          (kept.runAllKeeping compile later).registry path := by
  intro start site kept
  have hempty : start.registry.WellKept := .empty base strategy
  have hstart : Site.Matching (fun _ => none) start start :=
    ⟨rfl, rfl, rfl, rfl, hempty, hempty, id, fun _ => .unused rfl rfl⟩
  obtain ⟨offsets, -, hmatching⟩ := Site.runAll_matching compile hstart before
  refine ⟨fun name => Site.load_answer hmatching name,
    fun name path hpath held => Site.staleness_answer hmatching hpath held, ?_⟩
  intro path hcompiled
  obtain ⟨d, hd, hmodified⟩ := hmatching.registry.offset_of_compiled hcompiled
  have hstrategy : site.registry.strategy = strategy :=
    Site.runAll_strategy compile hempty before
  refine ⟨d, fun h => hmodified (hstrategy.trans h), fun later => ?_⟩
  obtain ⟨offsets', hkept, hlater⟩ := Site.runAll_matching compile hmatching later
  exact hlater.registry.compiledAlike (hkept path d hd)

/-- The first load reads a file for its marker that it cannot open; then the file changes and opens
again. -/
def reopened : List Site.Step :=
  [.edit (.write WatchedFile.template [65] 5),
    .edit (.fault WatchedFile.template.text .openStream (some (.system .denied))),
    .load (Text.ofString "t"), .edit (.fault WatchedFile.template.text .openStream none),
    .edit (.write WatchedFile.template [66] 5), .load (Text.ofString "t")]

/-- The registry that forgets has seen one change of the file, the other one has seen two. -/
theorem forgetting_is_invisible_reopened :
    let compile : Compiler Bytes Empty := .ok
    let start : Site Bytes := ⟨{ base := ⟨.relative, []⟩, strategy := .digest }, {}⟩
    let site := start.runAll compile reopened
    let kept := start.runAllKeeping compile reopened
    start.removals compile reopened = [WatchedFile.template] ∧
      site.registry.marker? WatchedFile.template = some 1 ∧
      kept.registry.marker? WatchedFile.template = some 2 ∧
      (site.run compile (.staleness (Text.ofString "t"))).1 =
        (kept.runKeeping compile (.staleness (Text.ofString "t"))).1 ∧
      ∀ later, Registry.CompiledAlike 1 (site.runAll compile later).registry
        (kept.runAllKeeping compile later).registry WatchedFile.template := by
  intro compile start site kept
  have hmarker : site.registry.marker? WatchedFile.template = some 1 := by decide +kernel
  have hmarker' : kept.registry.marker? WatchedFile.template = some 2 := by decide +kernel
  obtain ⟨-, hstale, halike⟩ := forgetting_is_invisible compile ⟨.relative, []⟩ .digest {} reopened
  obtain ⟨d, -, hlater⟩ := halike WatchedFile.template (.inl (by decide +kernel))
  have hnow := hlater []
  rw [Site.runAll_nil, Site.runAllKeeping_nil] at hnow
  obtain rfl : d = 1 := by
    have hoffset := hnow.marker_offset hmarker hmarker'
    omega
  refine ⟨by decide +kernel, hmarker, hmarker', ?_, hlater⟩
  exact (hstale (Text.ofString "t") WatchedFile.template (by decide +kernel)
    (by decide +kernel)).2

end LiveTemplates
