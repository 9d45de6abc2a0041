import LiveTemplates.Proofs.Registry.Steps

/-!
# What a registry holds

Over a whole run a registry holds caches of templates that were asked for while their files were
there. A cache that has compiled stays for good, and every cache that was announced is held or has
been removed by a load that did not get at its file.
-/

namespace LiveTemplates

namespace Site

variable {A F : Type} (compile : Compiler A F) {site : Site A} {path : Path}

/-- The paths whose caches the steps of a run remove. -/
def removals (site : Site A) : List Step → List Path
  | [] => []
  | step :: rest =>
    (site.removed? compile step).toList ++ removals (site.run compile step).2 rest

variable (h : site.registry.WellKept) (steps : List Step)
include h

theorem runAll_wellKept : (site.runAll compile steps).registry.WellKept := by
  induction steps generalizing site with
  | nil => exact h
  | cons step rest ih => exact ih (run_wellKept compile step h)

theorem runAll_base : (site.runAll compile steps).registry.base = site.registry.base := by
  induction steps generalizing site with
  | nil => rfl
  | cons step rest ih => exact (ih (run_wellKept compile step h)).trans (run_base compile step h)

theorem runAll_strategy :
    (site.runAll compile steps).registry.strategy = site.registry.strategy := by
  induction steps generalizing site with
  | nil => rfl
  | cons step rest ih =>
    exact (ih (run_wellKept compile step h)).trans (run_strategy compile step h)

theorem runAll_keeps {entry : CacheEntry A}
    (hentry : site.registry.entries.find? path = some entry) (held : entry.cache.held.isSome) :
    ∃ entry', (site.runAll compile steps).registry.entries.find? path = some entry' ∧
      entry'.number = entry.number ∧ entry'.cache.held.isSome := by
  induction steps generalizing site entry with
  | nil => exact ⟨entry, hentry, rfl, held⟩
  | cons step rest ih =>
    obtain ⟨entry', hentry', hnumber, held'⟩ := run_keeps compile step h hentry held
    obtain ⟨last, hlast, hsame, hheld⟩ := ih (run_wellKept compile step h) hentry' held'
    exact ⟨last, hlast, hsame.trans hnumber, hheld⟩

theorem runAll_announces : (site.runAll compile steps).registry.watchings + site.registry.size =
    site.registry.watchings + (site.runAll compile steps).registry.size +
      (site.removals compile steps).length := by
  induction steps generalizing site with
  | nil => rfl
  | cons step rest ih =>
    have hstep := run_announces compile step h
    have hrest := ih (run_wellKept compile step h)
    simp only [runAll_cons, removals, List.length_append]
    omega

/-- What a run adds indirectly was asked for, at one of its steps, while its file was there. -/
theorem asksFor_of_runAll (indirect : ∀ name, .cacheOf name ∉ steps)
    (unheld : ¬ site.registry.Holds path) (held : (site.runAll compile steps).registry.Holds path) :
    ∃ before step after, steps = before ++ step :: after ∧
      (site.runAll compile before).AsksFor step path := by
  induction steps generalizing site with
  | nil => exact (unheld held).elim
  | cons step rest ih =>
    by_cases added : (site.run compile step).2.registry.Holds path
    · have hstep : ∀ name, step ≠ .cacheOf name := by
        rintro name rfl
        exact indirect name List.mem_cons_self
      exact ⟨[], step, rest, rfl, asksFor_of_held h hstep unheld added⟩
    · obtain ⟨before, later, after, rfl, hasks⟩ := ih (run_wellKept compile step h)
        (fun name hname => indirect name (List.mem_cons_of_mem _ hname)) added held
      exact ⟨step :: before, later, after, rfl, hasks⟩

end Site

/-- The contents of a registry over a whole run, of any length and with any changes of the file
system between its steps, faults of reading and opening included. -/
theorem registry_contents {A F : Type} (compile : Compiler A F) (base : Path)
    (strategy : Strategy) (files : FileSystem) (steps : List Site.Step) :
    let start : Site A := ⟨{ base, strategy }, files⟩
    let site := start.runAll compile steps
    -- Unless caches are made directly, what is held was asked for while its file was there.
    ((∀ name, .cacheOf name ∉ steps) → ∀ path, site.registry.Holds path →
      ∃ before step after, steps = before ++ step :: after ∧
        (start.runAll compile before).AsksFor step path) ∧
    -- A path has one cache at most, and no cache stands at two paths.
    site.registry.entries.keys.Nodup ∧
    (∀ path path' entry entry', site.registry.entries.find? path = some entry →
      site.registry.entries.find? path' = some entry' → entry.number = entry'.number →
      path = path') ∧
    -- A cache holds an artifact as soon as it has compiled, and is the same one ever after.
    (∀ path entry, site.registry.entries.find? path = some entry →
      (entry.cache.held.isSome ↔ 0 < entry.cache.compiles)) ∧
    (∀ path entry, site.registry.entries.find? path = some entry → entry.cache.held.isSome →
      ∀ later, ∃ entry', (site.runAll compile later).registry.entries.find? path = some entry' ∧
        entry'.number = entry.number ∧ entry'.cache.held.isSome) ∧
    -- Caches are removed by loads only, one at a time, that do not get at the file of a cache that
    -- has never compiled.
    (∀ step path, site.registry.Holds path → ¬ (site.run compile step).2.registry.Holds path →
      ∃ name e, step = .load name ∧ (site.run compile step).1 = .error (.load (.unavailable e)) ∧
        site.registry.pathOf name = .ok path ∧ ¬ site.registry.HasCompiled path) ∧
    (∀ name path e, (site.run compile (.load name)).1 = .error (.load (.unavailable e)) →
      site.registry.pathOf name = .ok path → ¬ site.registry.HasCompiled path →
      ∀ q, (site.run compile (.load name)).2.registry.entries.find? q =
        if path = q then none else site.registry.entries.find? q) ∧
    -- All caches that were announced are held or were removed in this way.
    site.registry.watchings = site.registry.size + (start.removals compile steps).length ∧
    -- A warning goes with every answer of these two kinds, and with no other.
    ∀ step, ∃ new, (site.run compile step).2.registry.records = site.registry.records ++ new ∧
      new.filter Record.isWarning = step.warnings (site.run compile step).1 := by
  intro start site
  have hstart : start.registry.WellKept := .empty base strategy
  have hsite : site.registry.WellKept := Site.runAll_wellKept compile hstart steps
  refine ⟨?_, hsite.keys, fun _ _ _ _ => hsite.distinct, fun _ _ => hsite.counted, ?_, ?_, ?_, ?_,
    ?_⟩
  · intro indirect path held
    have unheld : ¬ start.registry.Holds path := nofun
    exact Site.asksFor_of_runAll compile hstart steps indirect unheld held
  · intro path entry hentry held later
    exact Site.runAll_keeps compile hsite later hentry held
  · intro step path held lost
    exact Site.removed?_eq_some.1 (Site.removed?_of_lost compile step hsite held lost)
  · intro name path e hanswer hpath unheld q
    exact Site.find?_of_removed compile _
      (Site.removed?_eq_some.2 ⟨name, e, rfl, hanswer, hpath, unheld⟩) q
  · have hannounced := Site.runAll_announces compile hstart steps
    simpa [start, Registry.watchings, Registry.size] using hannounced
  · intro step
    exact Site.run_warns compile step hsite

/-- A name without a file is asked for; a template is loaded, and then its file is removed. -/
def comings : List Site.Step :=
  [.load (Text.ofString "a"), .staleness (Text.ofString "a"),
    .edit (.write ⟨.relative, [Text.ofString "b.json"]⟩ [65] 5), .load (Text.ofString "b"),
    .edit (.remove ⟨.relative, [Text.ofString "b.json"]⟩), .load (Text.ofString "b"), .names]

theorem registry_contents_comings :
    let start : Site Bytes := ⟨{ base := ⟨.relative, []⟩, strategy := .digest }, {}⟩
    let site := start.runAll (Except.ok : Compiler Bytes Empty) comings
    let a : Path := ⟨.relative, [Text.ofString "a.json"]⟩
    let b : Path := ⟨.relative, [Text.ofString "b.json"]⟩
    (∀ name, .cacheOf name ∉ comings) ∧ site.registry.entries.keys = [b] ∧
      start.removals (Except.ok : Compiler Bytes Empty) comings = [a] ∧
      site.registry.watchings = 2 ∧ ∃ before step after, comings = before ++ step :: after ∧
        (start.runAll (Except.ok : Compiler Bytes Empty) before).AsksFor step b := by
  intro start site a b
  have indirect : ∀ name, .cacheOf name ∉ comings := by simp [comings]
  have hkeys : site.registry.entries.keys = [b] := by decide +kernel
  have hremovals : start.removals (Except.ok : Compiler Bytes Empty) comings = [a] := by
    decide +kernel
  have held : site.registry.Holds b := by decide +kernel
  obtain ⟨hasked, -, -, -, -, -, -, hannounced, -⟩ :=
    registry_contents (Except.ok : Compiler Bytes Empty) ⟨.relative, []⟩ .digest {} comings
  have hsize : site.registry.size = site.registry.entries.keys.length := (List.length_map _).symm
  rw [hkeys] at hsize
  refine ⟨indirect, hkeys, hremovals, ?_, hasked indirect b held⟩
  rw [hannounced, hremovals, hsize]
  rfl

end LiveTemplates
