import LiveTemplates.Proofs.Registry.Growth

/-!
# Steps on a registry

A step that is no load lets the registry grow at most. A load writes the warning of its answer, and
if it does not get at its file it removes the cache there, unless that has compiled before.
-/

namespace LiveTemplates

variable {A F : Type}

namespace Site

def Step.requested? : Step → Option Text
  | .load name | .find name | .cacheOf name | .staleness name | .pathOf name => some name
  | .names | .edit _ => none

def Step.warnings : Step → Except (RegistryFailure F) (Answer A) → List Record
  | .load name, .error (.load (.unavailable e)) => [.loadFailed name e.message]
  | .load name, .error (.load (.invalid e)) => [.loadFailed name e.message]
  | _, _ => []

variable (compile : Compiler A F) (site : Site A)

/-- The path whose cache a step removes: that of a load that does not get at its file, if the cache
has never compiled. -/
def removed? (step : Step) : Option Path :=
  match step, (site.run compile step).1 with
  | .load name, .error (.load (.unavailable _)) =>
    match site.registry.pathOf name with
    | .error _ => none
    | .ok path => if site.registry.HasCompiled path then none else some path
  | _, _ => none

variable {compile site} {path : Path} {step : Step}

theorem removed?_eq_some : site.removed? compile step = some path ↔
    ∃ name e, step = .load name ∧ (site.run compile step).1 = .error (.load (.unavailable e)) ∧
      site.registry.pathOf name = .ok path ∧ ¬ site.registry.HasCompiled path := by
  constructor
  · intro h
    unfold removed? at h
    split at h
    · rename_i name e hanswer
      split at h
      · cases h
      · rename_i path' hpath
        split at h
        · cases h
        · cases h
          exact ⟨name, e, rfl, hanswer, hpath, ‹_›⟩
    · cases h
  · rintro ⟨name, e, rfl, hanswer, hpath, unheld⟩
    simp only [removed?, hanswer, hpath, if_neg unheld]

theorem run_pathOf (name : Text) : (site.run compile (.pathOf name)).2 = site := by
  unfold run
  dsimp only
  split <;> rfl

/-- A step lets the registry grow, writes the warnings of its answer, and drops what it removes. -/
structure Effect (compile : Compiler A F) (site : Site A) (step : Step) (grown : Registry A) :
    Prop where
  grows : site.registry.Grows grown
  held : ∀ {path}, site.removed? compile step = some path → grown.Holds path
  result : (site.run compile step).2.registry =
    grown.leaving (site.removed? compile step) (step.warnings (site.run compile step).1)

/-- Steps that are no loads of templates drop nothing and warn of nothing. -/
theorem Effect.of_quiet {grown : Registry A} (hgrows : site.registry.Grows grown)
    (hgrown : (site.run compile step).2.registry = grown)
    (hload : ∀ name, step = .load name → ∃ e, site.registry.pathOf name = .error e) :
    Effect compile site step grown := by
  have hremoved : site.removed? compile step = none := by
    refine Option.eq_none_iff_forall_ne_some.2 fun path h => ?_
    obtain ⟨name, -, hname, -, hpath, -⟩ := removed?_eq_some.1 h
    obtain ⟨e, he⟩ := hload name hname
    cases hpath.symm.trans he
  have hwarnings : step.warnings (site.run compile step).1 = [] := by
    cases step with
    | load name =>
      obtain ⟨e, he⟩ := hload name rfl
      simp only [run, answering, Registry.load, he, Except.map, Step.warnings]
    | _ => rfl
  refine ⟨hgrows, fun h => ?_, ?_⟩
  · rw [hremoved] at h
    cases h
  · rw [hremoved, hwarnings, Registry.leaving_nothing, hgrown]

theorem Effect.of_load {name : Text} (hpath : site.registry.pathOf name = .ok path) :
    Effect compile site (.load name) (site.registry.afterLoad compile site.files path) := by
  refine ⟨Registry.afterLoad_grows compile site.files _ path, fun h => ?_, ?_⟩
  · obtain ⟨name', -, hname, -, hpath', -⟩ := removed?_eq_some.1 h
    cases hname
    cases hpath.symm.trans hpath'
    rw [Registry.Holds, Registry.find?_afterLoad, if_pos rfl]
    rfl
  · simp only [run, answering, removed?, Registry.load_eq hpath]
    rcases (site.registry.served compile site.files path).1 with e | artifact
    · cases e <;> simp [Except.map, Except.mapError, Step.warnings, Registry.warnings,
        Registry.forgotten?, hpath]
    · rfl

variable (compile) in
theorem run_effect (h : site.registry.WellKept) (step : Step) :
    ∃ grown, Effect compile site step grown := by
  cases step with
  | find name => exact ⟨_, .of_quiet (Registry.find_grows site.files _ name) rfl nofun⟩
  | cacheOf name => exact ⟨_, .of_quiet (Registry.cacheOf_grows _ name) rfl nofun⟩
  | staleness name => exact ⟨_, .of_quiet (h.staleness_grows site.files name) rfl nofun⟩
  | pathOf name => exact ⟨_, .of_quiet (.refl _) (by rw [run_pathOf]) nofun⟩
  | names => exact ⟨_, .of_quiet (.refl _) rfl nofun⟩
  | edit e => exact ⟨_, .of_quiet (.refl _) rfl nofun⟩
  | load name =>
    cases hpath : site.registry.pathOf name with
    | error e =>
      refine ⟨_, .of_quiet (.refl _) ?_ fun name' hname => ?_⟩
      · simp only [run, answering, Registry.load, hpath]
      · cases hname
        exact ⟨e, hpath⟩
    | ok path => exact ⟨_, .of_load hpath⟩

section Steps

variable (compile) (h : site.registry.WellKept) (step)
include h

theorem run_wellKept : (site.run compile step).2.registry.WellKept := by
  obtain ⟨grown, heffect⟩ := run_effect compile h step
  rw [heffect.result]
  exact (heffect.grows.wellKept h).leaving _ _

theorem run_strategy : (site.run compile step).2.registry.strategy = site.registry.strategy := by
  obtain ⟨grown, heffect⟩ := run_effect compile h step
  rw [heffect.result]
  exact heffect.grows.strategy

theorem run_base : (site.run compile step).2.registry.base = site.registry.base := by
  obtain ⟨grown, heffect⟩ := run_effect compile h step
  rw [heffect.result]
  exact heffect.grows.base

/-- A cache that has compiled is held, under its number, after any step. -/
theorem run_keeps {entry : CacheEntry A} (hentry : site.registry.entries.find? path = some entry)
    (held : entry.cache.held.isSome) :
    ∃ entry', (site.run compile step).2.registry.entries.find? path = some entry' ∧
      entry'.number = entry.number ∧ entry'.cache.held.isSome := by
  obtain ⟨grown, heffect⟩ := run_effect compile h step
  obtain ⟨entry', hentry', hnumber, hheld⟩ := heffect.grows.kept hentry
  refine ⟨entry', ?_, hnumber, hheld held⟩
  rw [heffect.result, Registry.find?_leaving, if_neg, hentry']
  intro hremoved
  obtain ⟨-, -, -, -, -, unheld⟩ := removed?_eq_some.1 hremoved
  exact unheld (Registry.hasCompiled_iff.2 ⟨entry, hentry, held⟩)

theorem removed?_of_lost (held : site.registry.Holds path)
    (lost : ¬ (site.run compile step).2.registry.Holds path) :
    site.removed? compile step = some path := by
  obtain ⟨grown, heffect⟩ := run_effect compile h step
  obtain ⟨entry, hentry⟩ := Registry.holds_iff.1 held
  obtain ⟨entry', hentry', -⟩ := heffect.grows.kept hentry
  rw [Registry.Holds, heffect.result, Registry.find?_leaving] at lost
  by_contra hremoved
  rw [if_neg hremoved, hentry'] at lost
  exact lost rfl

omit h in
theorem find?_of_removed (hremoved : site.removed? compile step = some path) (q : Path) :
    (site.run compile step).2.registry.entries.find? q =
      if path = q then none else site.registry.entries.find? q := by
  obtain ⟨name, -, rfl, -, hpath, -⟩ := removed?_eq_some.1 hremoved
  rw [(Effect.of_load hpath).result, Registry.find?_leaving, hremoved, Registry.find?_afterLoad]
  simp only [Option.some.injEq]
  split <;> rfl

theorem run_announces : (site.run compile step).2.registry.watchings + site.registry.size =
    site.registry.watchings + (site.run compile step).2.registry.size +
      (site.removed? compile step).toList.length := by
  obtain ⟨grown, heffect⟩ := run_effect compile h step
  have hannounced := heffect.grows.announced
  have hwarnings : (step.warnings (site.run compile step).1).countP Record.isWatching = 0 := by
    unfold Step.warnings
    split <;> rfl
  have hsize : grown.size = (grown.leaving (site.removed? compile step) []).size +
      (site.removed? compile step).toList.length := by
    cases hremoved : site.removed? compile step with
    | none => rfl
    | some path =>
      exact Keyed.length_drop (heffect.grows.wellKept h).keys (heffect.held hremoved)
  rw [heffect.result]
  simp only [Registry.watchings, Registry.size, Registry.leaving, List.countP_append,
    hwarnings] at hannounced hsize ⊢
  omega

theorem run_warns : ∃ new, (site.run compile step).2.registry.records =
    site.registry.records ++ new ∧
      new.filter Record.isWarning = step.warnings (site.run compile step).1 := by
  obtain ⟨grown, heffect⟩ := run_effect compile h step
  obtain ⟨new, hnew, hquiet⟩ := heffect.grows.unwarned
  have hwarnings : (step.warnings (site.run compile step).1).filter Record.isWarning =
      step.warnings (site.run compile step).1 := by
    unfold Step.warnings
    split <;> rfl
  refine ⟨new ++ step.warnings (site.run compile step).1, ?_, ?_⟩
  · rw [heffect.result, Registry.leaving, hnew, List.append_assoc]
  · rw [List.filter_append, hquiet, hwarnings, List.nil_append]

end Steps

section Asking

/-- A load that leaves a cache where none was has found the file. -/
theorem isFile_of_loaded (h : site.registry.WellKept) {name : Text}
    (hpath : site.registry.pathOf name = .ok path) (unheld : ¬ site.registry.Holds path)
    (held : (site.run compile (.load name)).2.registry.Holds path) :
    site.files.isFile path = .ok true := by
  have hcompiled : ¬ site.registry.HasCompiled path := by
    intro hcompiled
    obtain ⟨entry, hentry, -⟩ := Registry.hasCompiled_iff.1 hcompiled
    exact unheld (Registry.holds_iff.2 ⟨entry, hentry⟩)
  have hfresh : (site.registry.entryAt path).cache.held = none := by
    rwa [← Registry.entryAt_held, Option.not_isSome_iff_eq_none] at hcompiled
  have hserved : (∃ e, (site.registry.served compile site.files path).1 =
      .error (.unavailable e)) ∨
        site.files.isFile (site.registry.entryAt path).file.path = .ok true :=
    WatchedFile.unavailable_or_isFile hfresh rfl
  rcases hserved with ⟨e, houtcome⟩ | hfile
  · have hremoved : site.removed? compile (.load name) = some path := by
      refine removed?_eq_some.2 ⟨name, e, rfl, ?_, hpath, hcompiled⟩
      simp only [run, answering, Registry.load_eq hpath, houtcome, Except.mapError, Except.map]
    rw [Registry.Holds, find?_of_removed _ _ hremoved, if_pos rfl] at held
    cases held
  · rwa [h.entryAt_path] at hfile

def AsksFor (site : Site A) (step : Step) (path : Path) : Prop :=
  ∃ name, step.requested? = some name ∧ site.registry.pathOf name = .ok path ∧
    site.files.isFile path = .ok true

/-- A cache that a step adds, other than directly, is one that it asks for while its file is
there. -/
theorem asksFor_of_held (h : site.registry.WellKept) (indirect : ∀ name, step ≠ .cacheOf name)
    (unheld : ¬ site.registry.Holds path)
    (held : (site.run compile step).2.registry.Holds path) : site.AsksFor step path := by
  cases step with
  | load name =>
    cases hpath : site.registry.pathOf name with
    | error e =>
      simp only [run, answering, Registry.load, hpath] at held
      exact (unheld held).elim
    | ok p =>
      by_cases hp : p = path
      · subst hp
        exact ⟨name, rfl, hpath, isFile_of_loaded h hpath unheld held⟩
      · rw [Registry.Holds, (Effect.of_load hpath).result, Registry.find?_leaving,
          Registry.find?_afterLoad, if_neg hp] at held
        split at held
        · cases held
        · exact (unheld held).elim
  | find name => exact ⟨name, rfl, Registry.asked_of_find (F := F) unheld held⟩
  | staleness name =>
    have hfound := (Registry.holds_staleness_iff (F := F) fun _ => h.entryAt_path).1 held
    exact ⟨name, rfl, Registry.asked_of_find unheld hfound⟩
  | cacheOf name => exact (indirect name rfl).elim
  | pathOf name =>
    rw [run_pathOf] at held
    exact (unheld held).elim
  | names => exact (unheld held).elim
  | edit e => exact (unheld held).elim

end Asking

end Site

end LiveTemplates
