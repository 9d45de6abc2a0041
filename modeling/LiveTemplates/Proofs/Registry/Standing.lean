import LiveTemplates.Proofs.Registry.Tracked
import LiveTemplates.Proofs.Watch.Digest
import LiveTemplates.Proofs.Watch.Modified
import LiveTemplates.Proofs.Watch.Straight

/-!
# Registries in which the same stands

Where the same files and caches stand at all paths, loads are answered alike and leave the same
standing. A check for staleness leaves every cache as it is. It only looks at a file, and if that is
watched by its modification time, the same stands there afterwards.
-/

namespace LiveTemplates

namespace Registry

variable {A F : Type} {compile : Compiler A F} {files : FileSystem} {r r' r'' : Registry A}
variable {name : Text} {path : Path}

structure SameStanding (r r' : Registry A) : Prop where
  base : r'.base = r.base
  strategy : r'.strategy = r.strategy
  compiled : r'.compiled = r.compiled
  tracked : ∀ path, r'.tracked path = r.tracked path

namespace SameStanding

theorem refl (r : Registry A) : SameStanding r r := ⟨rfl, rfl, rfl, fun _ => rfl⟩

/-- What stands in a third registry as in the first stands there as in the second. -/
theorem left (h : SameStanding r r') (h' : SameStanding r r'') : SameStanding r'' r' where
  base := h.base.trans h'.base.symm
  strategy := h.strategy.trans h'.strategy.symm
  compiled := h.compiled.trans h'.compiled.symm
  tracked path := (h.tracked path).trans (h'.tracked path).symm

theorem atWork (h : SameStanding r r') (files : FileSystem) (path : Path) :
    r'.atWork (F := F) files (r'.entryAt path) = r.atWork files (r.entryAt path) := by
  have htracked := h.tracked path
  rw [Registry.tracked, Registry.tracked, Prod.mk.injEq] at htracked
  simp only [Registry.atWork, htracked, h.compiled]

theorem served (h : SameStanding r r') (compile : Compiler A F) (files : FileSystem)
    (path : Path) : r'.served compile files path = r.served compile files path := by
  rw [Registry.served, Registry.served, h.atWork]

theorem hasCompiled_iff (h : SameStanding r r') : r'.HasCompiled path ↔ r.HasCompiled path := by
  have htracked := h.tracked path
  rw [Registry.tracked, Registry.tracked, Prod.mk.injEq] at htracked
  rw [← entryAt_held, ← entryAt_held, htracked.2]

theorem load (h : SameStanding r r') (compile : Compiler A F) (files : FileSystem) (name : Text) :
    (r'.load compile files name).1 = (r.load compile files name).1 ∧
      SameStanding (r.load compile files name).2 (r'.load compile files name).2 := by
  have hpaths := pathOf_of_base h.base name
  cases hpath : r.pathOf name with
  | error e =>
    rw [hpath] at hpaths
    simp only [Registry.load, hpath, hpaths, true_and]
    exact h
  | ok path =>
    rw [hpath] at hpaths
    have hforgotten : r'.forgotten? path (r.served compile files path).1 =
        r.forgotten? path (r.served compile files path).1 := by
      unfold forgotten?
      simp only [h.hasCompiled_iff]
    rw [load_eq hpath, load_eq hpaths, h.served, hforgotten]
    refine ⟨rfl, ?_, ?_, ?_, fun q => ?_⟩
    · exact cacheAt_base.trans (h.base.trans cacheAt_base.symm)
    · exact cacheAt_strategy.trans (h.strategy.trans cacheAt_strategy.symm)
    · exact congrArg (fun w : Watch WatchedFile A Int F => w.compiled)
        (congrArg Prod.snd (h.served compile files path))
    · have hstrategy : (r'.afterLoad compile files path).strategy =
          (r.afterLoad compile files path).strategy :=
        cacheAt_strategy.trans (h.strategy.trans cacheAt_strategy.symm)
      rw [tracked_leaving, tracked_leaving, hstrategy, afterLoad, afterLoad, tracked_settle,
        tracked_settle, h.served, h.tracked]

end SameStanding

/-- Caches were made and files were looked at, but nothing was compiled, and what a cache holds has
stayed. -/
structure Looks (r r' : Registry A) : Prop where
  base : r'.base = r.base
  strategy : r'.strategy = r.strategy
  compiled : r'.compiled = r.compiled
  uncalled : ∃ new, r'.records = r.records ++ new ∧ .compilerCalled ∉ new
  kept : ∀ {path entry}, r.entries.find? path = some entry →
    ∃ entry', r'.entries.find? path = some entry' ∧ entry'.number = entry.number ∧
      entry'.cache = entry.cache
  fresh : ∀ {path entry'}, r.entries.find? path = none → r'.entries.find? path = some entry' →
    entry'.cache = {}

theorem Looks.refl (r : Registry A) : r.Looks r :=
  ⟨rfl, rfl, rfl, ⟨[], by simp⟩, fun h => ⟨_, h, rfl, rfl⟩, fun h h' => by
    rw [h] at h'
    cases h'⟩

theorem calls_eq_nil {events : List (Event A Int F)} (h : .compilerCalled ∉ events) :
    calls events = [] := by
  refine List.filterMap_eq_nil_iff.2 fun e he => ?_
  split
  · exact (h he).elim
  · rfl

theorem cacheAt_uncalled (r : Registry A) (path : Path) :
    ∃ new, (r.cacheAt path).2.records = r.records ++ new ∧ .compilerCalled ∉ new := by
  cases hentry : r.entries.find? path with
  | some entry => exact ⟨[], by simp [cacheAt_of_find? hentry], by simp⟩
  | none => exact ⟨_, by rw [cacheAt_of_none hentry], by simp⟩

theorem cacheAt_settle_looks (r : Registry A) (path : Path) {w : Watch WatchedFile A Int F}
    (hcache : w.cache = (r.entryAt path).cache) (hcompiled : w.compiled = r.compiled)
    (huncalled : .compilerCalled ∉ w.events) :
    r.Looks ((r.cacheAt path).2.settle path (r.entryAt path) w) where
  base := cacheAt_base
  strategy := cacheAt_strategy
  compiled := hcompiled
  uncalled := by
    obtain ⟨new, hnew, hmade⟩ := cacheAt_uncalled r path
    exact ⟨new, by rw [settle, calls_eq_nil huncalled, hnew, List.append_nil], hmade⟩
  kept {q entry} hq := by
    rw [find?_settle, find?_cacheAt]
    split
    · rename_i heq
      subst heq
      rw [entryAt_of_find? hq] at hcache ⊢
      exact ⟨_, rfl, rfl, hcache⟩
    · exact ⟨entry, hq, rfl, rfl⟩
  fresh {q entry'} hq hq' := by
    rw [find?_settle, find?_cacheAt] at hq'
    split at hq'
    · rename_i heq
      subst heq
      rw [entryAt_of_none hq] at hcache hq'
      cases hq'
      exact hcache
    · rw [hq] at hq'
      cases hq'

theorem checked_snd (files : FileSystem) (r : Registry A) (path : Path) :
    ∃ log : List (Event A Int F), .compilerCalled ∉ log ∧ (r.checked (F := F) files path).2 =
      { r.atWork (F := F) files (r.entryAt path) with
        resource := (WatchedFile.source.marker ⟨(r.entryAt path).file, files⟩).2
        events := log } := by
  obtain ⟨log, -, huncalled, hchecked⟩ := Source.isOutdated_snd_eq WatchedFile.source
    (r.atWork (F := F) files (r.entryAt path))
  exact ⟨log, huncalled, hchecked⟩

theorem WellKept.staleness_looks (h : r.WellKept) (files : FileSystem) (name : Text) :
    r.Looks (r.staleness (F := F) files name).2 := by
  cases hpath : r.pathOf name with
  | error e =>
    simp only [staleness, find, hpath]
    exact .refl r
  | ok path =>
    by_cases present : r.Holds path ∨ files.isFile path = .ok true
    · rw [staleness_of_present hpath present h.entryAt_path]
      obtain ⟨log, huncalled, hchecked⟩ := checked_snd (F := F) files r path
      exact cacheAt_settle_looks r path (by rw [hchecked]; rfl) (by rw [hchecked]; rfl)
        (by rwa [hchecked])
    · rw [staleness_of_absent hpath present]
      exact .refl r

theorem WellKept.timed (h : r.WellKept) (modified : r.strategy = .modified) (files : FileSystem)
    (path : Path) : WatchedFile.Timed path ⟨(r.entryAt path).file, files⟩ := by
  have hpath : (r.entryAt path).file.path = path := h.entryAt_path
  have hstrategy : (r.entryAt path).file.mark.strategy = .modified :=
    h.entryAt_strategy.trans modified
  unfold WatchedFile.Timed
  generalize (r.entryAt path).file = file at hpath hstrategy ⊢
  obtain ⟨p, mark⟩ := file
  subst hpath
  cases mark with
  | modified => rfl
  | generation g => cases hstrategy

theorem WellKept.digested (h : r.WellKept) (digest : r.strategy = .digest) (files : FileSystem)
    (path : Path) : WatchedFile.Digested path ⟨(r.entryAt path).file, files⟩ := by
  have hpath : (r.entryAt path).file.path = path := h.entryAt_path
  have hstrategy : (r.entryAt path).file.mark.strategy = .digest :=
    h.entryAt_strategy.trans digest
  unfold WatchedFile.Digested
  generalize (r.entryAt path).file = file at hpath hstrategy ⊢
  obtain ⟨p, mark⟩ := file
  subst hpath
  cases mark with
  | modified => cases hstrategy
  | generation g => exact ⟨g, rfl⟩

/-- Looking at a file that is watched by its modification time changes nothing. -/
theorem WellKept.staleness_standing (h : r.WellKept) (modified : r.strategy = .modified)
    (files : FileSystem) (name : Text) :
    SameStanding r (r.staleness (F := F) files name).2 := by
  have hlooks := h.staleness_looks (F := F) files name
  refine ⟨hlooks.base, hlooks.strategy, hlooks.compiled, fun q => ?_⟩
  cases hpath : r.pathOf name with
  | error e => simp only [staleness, find, hpath]
  | ok path =>
    by_cases present : r.Holds path ∨ files.isFile path = .ok true
    · rw [staleness_of_present hpath present h.entryAt_path, tracked_settle]
      obtain ⟨log, -, hchecked⟩ := checked_snd (F := F) files r path
      rw [hchecked, WatchedFile.source_marker_of_timed (h.timed modified files path)]
      split
      · rename_i heq
        subst heq
        rfl
      · rfl
    · rw [staleness_of_absent hpath present]

end Registry

end LiveTemplates
