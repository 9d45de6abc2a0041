import LiveTemplates.Proofs.Watch.Undisturbed
import LiveTemplates.Registry.Run

/-!
# What the operations of a registry do

An operation on a name works on the cache at one path. It makes that cache first if there is none,
and a load that fails may forget it in the end. Everything at other paths stays as it is.
-/

namespace LiveTemplates

variable {A F : Type}

def CacheEntry.worked (entry : CacheEntry A) (w : Watch WatchedFile A Int F) : CacheEntry A :=
  { entry with file := w.resource.file, cache := w.cache }

namespace Registry

def Holds (r : Registry A) (path : Path) : Prop := (r.entries.find? path).isSome

instance (r : Registry A) (path : Path) : Decidable (r.Holds path) :=
  inferInstanceAs (Decidable (_ = true))

def HasCompiled (r : Registry A) (path : Path) : Prop :=
  (r.entries.find? path).any fun entry => entry.cache.held.isSome

instance (r : Registry A) (path : Path) : Decidable (r.HasCompiled path) :=
  inferInstanceAs (Decidable (_ = true))

/-- The cache at a path, or else the one that its first use would make. -/
def entryAt (r : Registry A) (path : Path) : CacheEntry A :=
  (r.entries.find? path).getD { number := r.created, file := .watching path r.strategy }

def atWork (files : FileSystem) (r : Registry A) (entry : CacheEntry A) :
    Watch WatchedFile A Int F :=
  { resource := ⟨entry.file, files⟩, cache := entry.cache, compiled := r.compiled }

def calls (events : List (Event A Int F)) : List Record :=
  events.filterMap fun
    | .compilerCalled => some .compilerCalled
    | _ => none

def settle (r : Registry A) (path : Path) (entry : CacheEntry A) (w : Watch WatchedFile A Int F) :
    Registry A :=
  { r with
    entries := r.entries.put path (entry.worked w)
    compiled := w.compiled
    records := r.records ++ calls w.events }

def warnings (name : Text) {α : Type} : Except (LoadFailure Int F) α → List Record
  | .error (.unavailable e) => [.loadFailed name e.message]
  | .error (.invalid e) => [.loadFailed name e.message]
  | _ => []

/-- The path whose cache a load forgets: its own, if it does not get at the file of a cache that has
never compiled. -/
def forgotten? (r : Registry A) (path : Path) {α : Type} :
    Except (LoadFailure Int F) α → Option Path
  | .error (.unavailable _) => if r.HasCompiled path then none else some path
  | _ => none

def leaving (r : Registry A) (dropped : Option Path) (warnings : List Record) : Registry A :=
  { r with
    entries := dropped.elim r.entries r.entries.drop
    records := r.records ++ warnings }

theorem leaving_nothing (r : Registry A) : r.leaving none [] = r := by simp [leaving]

variable {files : FileSystem} {r : Registry A} {path q : Path} {entry : CacheEntry A}

theorem holds_iff : r.Holds path ↔ ∃ entry, r.entries.find? path = some entry :=
  Option.isSome_iff_exists

theorem hasCompiled_iff : r.HasCompiled path ↔
    ∃ entry, r.entries.find? path = some entry ∧ entry.cache.held.isSome := by
  rw [HasCompiled, Option.any_eq_true]

theorem entryAt_of_find? (h : r.entries.find? path = some entry) : r.entryAt path = entry := by
  rw [entryAt, h, Option.getD_some]

theorem entryAt_of_none (h : r.entries.find? path = none) :
    r.entryAt path = { number := r.created, file := .watching path r.strategy } := by
  rw [entryAt, h, Option.getD_none]

theorem cacheAt_of_find? (h : r.entries.find? path = some entry) :
    r.cacheAt path = (entry, r) := by
  simp only [cacheAt, h]

theorem cacheAt_of_none (h : r.entries.find? path = none) :
    r.cacheAt path = (r.entryAt path, { r with
      entries := r.entries.put path (r.entryAt path)
      created := r.created + 1
      records := r.records ++ [.watching path r.strategy] }) := by
  simp only [cacheAt, h, entryAt_of_none h]

theorem cacheAt_fst : (r.cacheAt path).1 = r.entryAt path := by
  cases h : r.entries.find? path with
  | none => rw [cacheAt_of_none h]
  | some entry => rw [cacheAt_of_find? h, entryAt_of_find? h]

theorem pathOf_of_base {r' : Registry A} (h : r'.base = r.base) (name : Text) :
    r'.pathOf name = r.pathOf name := by
  simp only [pathOf, h]

@[simp] theorem cacheAt_base : (r.cacheAt path).2.base = r.base := by
  unfold cacheAt
  split <;> rfl

@[simp] theorem cacheAt_strategy : (r.cacheAt path).2.strategy = r.strategy := by
  unfold cacheAt
  split <;> rfl

@[simp] theorem cacheAt_compiled : (r.cacheAt path).2.compiled = r.compiled := by
  unfold cacheAt
  split <;> rfl

theorem find?_cacheAt : (r.cacheAt path).2.entries.find? q =
    if path = q then some (r.entryAt path) else r.entries.find? q := by
  cases h : r.entries.find? path with
  | none => rw [cacheAt_of_none h, Keyed.find?_put]
  | some entry =>
    rw [cacheAt_of_find? h, entryAt_of_find? h]
    split
    · rename_i heq
      rw [← heq, h]
    · rfl

theorem onCache_eq {α : Type}
    (step : Watch WatchedFile A Int F →
      Except (LoadFailure Int F) α × Watch WatchedFile A Int F) :
    r.onCache files path entry step =
      ((step (r.atWork files entry)).1, r.settle path entry (step (r.atWork files entry)).2) := rfl

theorem forgotten?_eq_some {α : Type} {outcome : Except (LoadFailure Int F) α}
    (h : r.forgotten? path outcome = some q) :
    path = q ∧ ¬ r.HasCompiled path ∧ ∃ e, outcome = .error e := by
  unfold forgotten? at h
  split at h
  · split at h
    · cases h
    · exact ⟨Option.some.inj h, ‹_›, _, rfl⟩
  · cases h

theorem find?_settle {w : Watch WatchedFile A Int F} : (r.settle path entry w).entries.find? q =
    if path = q then some (entry.worked w) else r.entries.find? q := by
  rw [settle, Keyed.find?_put]

theorem holds_cacheAt : (r.cacheAt path).2.Holds q ↔ path = q ∨ r.Holds q := by
  rw [Holds, find?_cacheAt]
  split <;> simp_all [Holds]

theorem holds_settle {w : Watch WatchedFile A Int F} :
    ((r.cacheAt path).2.settle path entry w).Holds q ↔ path = q ∨ r.Holds q := by
  rw [Holds, find?_settle, find?_cacheAt]
  split <;> simp_all [Holds]

theorem entryAt_held : (r.entryAt path).cache.held.isSome ↔ r.HasCompiled path := by
  cases hentry : r.entries.find? path <;> simp [entryAt, HasCompiled, hentry]

theorem forget_eq : r.forget path =
    { r with entries := if r.HasCompiled path then r.entries else r.entries.drop path } := by
  cases h : r.entries.find? path with
  | none =>
    have hdrop : r.entries.drop path = r.entries := Keyed.drop_eq_self (Keyed.find?_eq_none_iff.1 h)
    simp only [forget, h, hdrop, ite_self]
  | some entry => cases hheld : entry.cache.held <;> simp [forget, HasCompiled, h, hheld]

theorem find?_leaving {dropped : Option Path} {warnings : List Record} :
    (r.leaving dropped warnings).entries.find? q =
      if dropped = some q then none else r.entries.find? q := by
  cases dropped with
  | none => rfl
  | some path => simp [leaving, Keyed.find?_drop]

theorem atWork_cacheAt : (r.cacheAt path).2.atWork (F := F) files entry = r.atWork files entry := by
  simp only [atWork, cacheAt_compiled]

section Loading

variable (compile : Compiler A F) (files : FileSystem) (r : Registry A) (name : Text)

def served (path : Path) : Except (LoadFailure Int F) (Artifact A) × Watch WatchedFile A Int F :=
  WatchedFile.request compile (r.atWork files (r.entryAt path))

/-- The registry after a load from a path, but for what the load reports and forgets. -/
def afterLoad (path : Path) : Registry A :=
  (r.cacheAt path).2.settle path (r.entryAt path) (r.served compile files path).2

variable {compile files r name}

theorem find?_afterLoad : (r.afterLoad compile files path).entries.find? q =
    if path = q then some ((r.entryAt path).worked (r.served compile files path).2)
    else r.entries.find? q := by
  rw [afterLoad, find?_settle, find?_cacheAt]
  split <;> rfl

theorem hasCompiled_afterLoad_of_error {e : LoadFailure Int F}
    (h : (r.served compile files path).1 = .error e) :
    (r.afterLoad compile files path).HasCompiled path ↔ r.HasCompiled path := by
  have hcache : (r.served compile files path).2.cache = (r.entryAt path).cache :=
    WatchedFile.request_cache_of_error h
  rw [HasCompiled, find?_afterLoad, if_pos rfl, ← entryAt_held]
  simp [CacheEntry.worked, hcache]

theorem loadAt_eq : r.loadAt compile files name path =
    ((r.served compile files path).1, (r.afterLoad compile files path).leaving none
      (warnings name (r.served compile files path).1)) := by
  simp only [loadAt, onCache_eq, cacheAt_fst, atWork_cacheAt, afterLoad, served]
  split <;> simp_all [note, warnings, leaving]

theorem load_eq (h : r.pathOf name = .ok path) : r.load compile files name =
    ((r.served compile files path).1.mapError .load, (r.afterLoad compile files path).leaving
      (r.forgotten? path (r.served compile files path).1)
      (warnings name (r.served compile files path).1)) := by
  simp only [load, h, loadAt_eq]
  cases houtcome : (r.served compile files path).1 with
  | ok artifact => rfl
  | error e =>
    cases e with
    | unavailable e =>
      have hcompiled : ((r.afterLoad compile files path).leaving none
          (warnings (F := F) (α := Artifact A) name (.error (.unavailable e)))).HasCompiled path ↔
            r.HasCompiled path :=
        hasCompiled_afterLoad_of_error houtcome
      dsimp only
      rw [forget_eq]
      by_cases held : r.HasCompiled path
      · rw [if_pos (hcompiled.2 held), forgotten?, if_pos held]
        rfl
      · rw [if_neg (mt hcompiled.1 held), forgotten?, if_neg held]
        rfl
    | _ => rfl

end Loading

section Finding

variable {name : Text}

theorem find_of_present (h : r.pathOf name = .ok path)
    (present : r.Holds path ∨ files.isFile path = .ok true) :
    r.find (F := F) files name = (.ok (some (r.entryAt path)), (r.cacheAt path).2) := by
  cases hentry : r.entries.find? path with
  | some entry => simp only [find, h, hentry, cacheAt_of_find? hentry, entryAt_of_find? hentry]
  | none =>
    have hfile : files.isFile path = .ok true := by simpa [Holds, hentry] using present
    simp only [find, h, hentry, hfile, cacheAt_of_none hentry]

/-- What is neither watched nor a file is not found, if the file system tells so. -/
theorem find_eq_of_absent (h : r.pathOf name = .ok path)
    (absent : ¬ (r.Holds path ∨ files.isFile path = .ok true)) : r.find (F := F) files name =
      (((files.isFile path).map fun _ => none).mapError (.lookup · path), r) := by
  obtain ⟨unheld, hfile⟩ := not_or.1 absent
  have hentry : r.entries.find? path = none := by simpa [Holds] using unheld
  simp only [find, h, hentry]
  cases hisFile : files.isFile path with
  | error e => rfl
  | ok isFile =>
    cases isFile with
    | true => exact (hfile hisFile).elim
    | false => rfl

theorem find_of_absent (h : r.pathOf name = .ok path)
    (absent : ¬ (r.Holds path ∨ files.isFile path = .ok true)) :
    ∃ outcome, r.find (F := F) files name = (outcome, r) ∧ ∀ entry, outcome ≠ .ok (some entry) := by
  refine ⟨_, find_eq_of_absent h absent, fun entry => ?_⟩
  cases files.isFile path <;> simp [Except.map, Except.mapError]

/-- Finding makes a cache at most. -/
theorem find_snd (files : FileSystem) (r : Registry A) (name : Text) :
    (r.find (F := F) files name).2 = r ∨ ∃ path, r.pathOf name = .ok path ∧
      (r.Holds path ∨ files.isFile path = .ok true) ∧
      (r.find (F := F) files name).2 = (r.cacheAt path).2 := by
  cases hpath : r.pathOf name with
  | error e => exact .inl (by simp only [find, hpath])
  | ok path =>
    by_cases present : r.Holds path ∨ files.isFile path = .ok true
    · exact .inr ⟨path, rfl, present, by rw [find_of_present hpath present]⟩
    · obtain ⟨outcome, hfind, -⟩ := find_of_absent (F := F) hpath present
      exact .inl (by rw [hfind])

def checked (files : FileSystem) (r : Registry A) (path : Path) :
    Except (LoadFailure Int F) Bool × Watch WatchedFile A Int F :=
  isOutdated WatchedFile.source.access (r.atWork files (r.entryAt path))

theorem staleness_of_present (h : r.pathOf name = .ok path)
    (present : r.Holds path ∨ files.isFile path = .ok true)
    (hpath : (r.entryAt path).file.path = path) :
    r.staleness (F := F) files name =
      (((r.checked files path).1.map some).mapError .load,
        (r.cacheAt path).2.settle path (r.entryAt path) (r.checked (F := F) files path).2) := by
  simp only [staleness, find_of_present h present, onCache_eq, atWork_cacheAt, hpath, checked]
  split <;> simp_all [Except.map, Except.mapError]

theorem staleness_eq_of_absent (h : r.pathOf name = .ok path)
    (absent : ¬ (r.Holds path ∨ files.isFile path = .ok true)) : r.staleness (F := F) files name =
      (((files.isFile path).map fun _ => none).mapError (.lookup · path), r) := by
  simp only [staleness, find_eq_of_absent h absent]
  cases files.isFile path <;> rfl

theorem staleness_of_absent (h : r.pathOf name = .ok path)
    (absent : ¬ (r.Holds path ∨ files.isFile path = .ok true)) :
    (r.staleness (F := F) files name).2 = r := by
  rw [staleness_eq_of_absent h absent]

theorem asked_of_find (unheld : ¬ r.Holds path) (held : (r.find (F := F) files name).2.Holds path) :
    r.pathOf name = .ok path ∧ files.isFile path = .ok true := by
  rcases find_snd (F := F) files r name with hsame | ⟨p, hpath, present, hmade⟩
  · rw [hsame] at held
    exact (unheld held).elim
  · rw [hmade, holds_cacheAt] at held
    obtain rfl := held.resolve_right unheld
    exact ⟨hpath, present.resolve_left unheld⟩

/-- Checking for staleness adds the caches that finding adds. -/
theorem holds_staleness_iff (hfile : ∀ path, (r.entryAt path).file.path = path) :
    (r.staleness (F := F) files name).2.Holds path ↔ (r.find (F := F) files name).2.Holds path := by
  cases hpath : r.pathOf name with
  | error e => simp only [staleness, find, hpath]
  | ok p =>
    by_cases present : r.Holds p ∨ files.isFile p = .ok true
    · rw [staleness_of_present hpath present (hfile p), find_of_present hpath present, holds_settle,
        holds_cacheAt]
    · obtain ⟨outcome, hfind, -⟩ := find_of_absent (F := F) hpath present
      rw [staleness_of_absent hpath present, hfind]

end Finding

end Registry

end LiveTemplates
